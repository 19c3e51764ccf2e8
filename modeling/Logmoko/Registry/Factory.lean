import Logmoko.Lib.Ledger
import Logmoko.Registry.Kinds

/-!
# 失敗しうる factory

四つの factory を、その中の確保や thread の生成の成否とともに写す。
handler の list と設定は `lmk_init` の後のものである。

factory は、確保のどれかに失敗すれば何も残さずに NULL を返すはずである。
ところが名前の複写の失敗は調べられず、名前が NULL の handler が登録される。
その後の検索は、その名前に `strcmp` を使って落ちる。filename の複写の失敗も調べられない。

* `Factory.callWith` — 成否を与えた factory の呼び出し
* `callWith_eq_call` — すべて成功すれば `Factory.call` である
* `factory_all_or_nothing_iff` — 全部か無かになるための条件
-/

namespace Logmoko

open Ledger

/-! ## 状態 -/

/-- factory の中の呼び出しの成否。`struct` は確保した構造体の番地である。 -/
structure CallResults where
  struct : Option Nat
  name : Bool
  filename : Bool
  ring : Bool
  thread : Bool
  stream : Bool
  socket : Bool
  cipher : Bool

/-- factory が獲得するもの。`handlerLock` は mutex を作ること、`locked` はそれを取ることである。 -/
inductive Resource where
  | struct
  | name
  | filename
  | handlerLock
  | locked
  | stream
  | socket
  | syslogSession
  | ring
  | cipher
  | wakeupLock
  | wakeupCond
deriving DecidableEq

/-- 名前の複写に失敗した handler では、名前が NULL である。 -/
structure NamedHandler where
  handler : LogHandler
  named : Bool

/-- `g_lmk_handler_list` と `g_lmk_config`。 -/
structure HandlerList where
  config : Config
  handlers : List NamedHandler

/-- 呼び出しの後の list、返り値、獲得と解放の記録。 -/
abbrev FactoryResult := HandlerList × Option Nat × List (Event Unit Resource)

/-! ## 関数 -/

/-- 名前が NULL の handler に行き当たると落ちる。 -/
def searchNamed : List NamedHandler → CStr → Option (Option LogHandler)
  | [], _ => some none
  | h :: hs, name =>
    if h.named = false then none
    else if h.handler.name = name then some (some h.handler)
    else searchNamed hs name

/-- 変数 `name_len`。`int` に入れるので、下位 32 bit が残る。 -/
def nameLen (name : CStr) : Int := (name.length : Int).bmod (2 ^ 32)

/--
名前の複写。`ok` は確保の成否である。`name_len + 1` は `int` の加算で、あふれれば未定義動作になる。
負の大きさの確保は必ず失敗し、大きさ 0 の領域に写せば領域の外に書く。
-/
def copyNameWith (ok : Bool) (name : CStr) : Option (Option CStr) :=
  if nameLen name = 2 ^ 31 - 1 then none
  else if ok = false ∨ nameLen name < -1 then some none
  else if nameLen name = -1 then none
  else some (some (name.take (nameLen name).toNat))

/-- 成功したときだけ獲得する資源。 -/
def opened (ok : Bool) (x : Resource) : List Resource := if ok then [x] else []

/--
四つの init に共通の部分。ring の前に `before` を、後に `after` を獲得する。
失敗は、`ring_buffer` が NULL のままであることだけが表す。
-/
def initRing (o : CallResults) (before after : List Resource) :
    Bool × List (Event Unit Resource) :=
  if o.ring = false then (false, acquireAll () before ++ releaseAll () before)
  else if o.thread = false then
    (false, acquireAll () (before ++ .ring :: after ++ [.wakeupLock, .wakeupCond]) ++
      releaseAll () (.ring :: before ++ after ++ [.wakeupCond, .wakeupLock]))
  else (true, acquireAll () (before ++ .ring :: after ++ [.wakeupLock, .wakeupCond]))

/-- 本体を `handler->lock` の中で行う。 -/
def withLock (p : Bool × List (Event Unit Resource)) : Bool × List (Event Unit Resource) :=
  (p.1, acquireAll () [.locked] ++ p.2 ++ releaseAll () [.locked])

def lmkConsoleLogHandlerInit (o : CallResults) : Bool × List (Event Unit Resource) :=
  initRing o [] []

def lmkFileLogHandlerInit (o : CallResults) : Bool × List (Event Unit Resource) :=
  withLock (initRing o (opened o.stream .stream) [])

/-- socket を開けなかったときの `close` は、獲得したものの解放ではない。 -/
def lmkSocketLogHandlerInit (o : CallResults) : Bool × List (Event Unit Resource) :=
  withLock (initRing o (opened o.socket .socket) (opened o.cipher .cipher))

def lmkSyslogLogHandlerInit (o : CallResults) : Bool × List (Event Unit Resource) :=
  withLock (initRing o [.syslogSession] [])

/-- 関数 pointer `handler->init`。 -/
def HandlerType.init (o : CallResults) : HandlerType → Bool × List (Event Unit Resource)
  | .console => lmkConsoleLogHandlerInit o
  | .file => lmkFileLogHandlerInit o
  | .socket => lmkSocketLogHandlerInit o
  | .syslog => lmkSyslogLogHandlerInit o

/-- 名前の見つからなかった handler の生成。複写に失敗した filename を開くのは未定義動作である。 -/
def createWith (o : CallResults) (st : HandlerList) (name : CStr) (body : HandlerBody) :
    Option FactoryResult :=
  match o.struct with
  | none => some (st, none, [])
  | some a =>
    (copyNameWith o.name name).bind fun name' =>
      if body.type = .file ∧ o.filename = false then none
      else
        let names := opened name'.isSome .name
        let files := opened (body.type = .file) .filename
        let p := body.type.init o
        let log := acquireAll () (.struct :: names ++ .handlerLock :: files) ++ p.2
        if p.1 then
          let handler : LogHandler :=
            { addr := a, name := name'.getD .empty, logLevel := logLevelTrace, nrLoggerRef := 0
              initialized := true, formatFn := none
              ringMask := lmkNextPow2 st.config.ringBufferSize - 1, body }
          some ({ st with handlers := st.handlers ++ [⟨handler, name'.isSome⟩] }, some a, log)
        else some (st, none, log ++ releaseAll () (files ++ names ++ [.handlerLock, .struct]))

/-- 四つの factory に共通の部分。 -/
def getOrCreateWith (o : CallResults) (st : HandlerList) (name : CStr) (body : HandlerBody) :
    Option FactoryResult :=
  (searchNamed st.handlers name).bind fun found =>
    match found with
    | some handler => some (st, some handler.addr, [])
    | none => createWith o st name body

def getConsoleLogHandlerWith (o : CallResults) (st : HandlerList) : Option FactoryResult :=
  getOrCreateWith o st consoleName .console

def getFileLogHandlerWith (o : CallResults) (st : HandlerList) (name filename : Option CStr) :
    Option FactoryResult :=
  match name, filename with
  | some name, some filename =>
    getOrCreateWith o st name (.file filename defaultMaxFileSize defaultMaxBackupFiles)
  | _, _ => some (st, none, [])

def getSocketLogHandlerWith (o : CallResults) (st : HandlerList) :
    Option CStr → Option FactoryResult
  | some name => getOrCreateWith o st name (.socket [] none)
  | none => some (st, none, [])

def getSyslogLogHandlerWith (o : CallResults) (st : HandlerList) (name ident : Option CStr)
    (facility : Int) : Option FactoryResult :=
  match name with
  | some name =>
    getOrCreateWith o st name (.syslog ((ident.getD .empty).take 63) facility)
  | none => some (st, none, [])

def Factory.callWith (o : CallResults) (st : HandlerList) : Factory → Option FactoryResult
  | .console => getConsoleLogHandlerWith o st
  | .file name filename => getFileLogHandlerWith o st name filename
  | .socket name => getSocketLogHandlerWith o st name
  | .syslog name ident facility => getSyslogLogHandlerWith o st name ident facility

/-! ## 全部か無か -/

/-- 作られるはずの handler の名前と中身。引数が NULL なら `none` である。 -/
def Factory.request : Factory → Option (CStr × HandlerBody)
  | .console => some (consoleName, .console)
  | .file (some name) (some filename) =>
    some (name, .file filename defaultMaxFileSize defaultMaxBackupFiles)
  | .file _ _ => none
  | .socket name => name.map fun name => (name, .socket [] none)
  | .syslog name ident facility =>
    name.map fun name => (name, .syslog ((ident.getD .empty).take 63) facility)

theorem callWith_eq (o : CallResults) (st : HandlerList) (fac : Factory) :
    fac.callWith o st = match fac.request with
      | some (name, body) => getOrCreateWith o st name body
      | none => some (st, none, []) := by
  cases fac with
  | console => rfl
  | file name filename => cases name <;> cases filename <;> rfl
  | socket name => cases name <;> rfl
  | syslog name ident facility => cases name <;> rfl

/-- 個々の呼び出しがどれも成功する。負の大きさの確保は成功しない。 -/
def AllSucceed (o : CallResults) (name : CStr) (body : HandlerBody) : Prop :=
  o.struct ≠ none ∧ (o.name = true ∧ -1 ≤ nameLen name) ∧
    (body.type = .file → o.filename = true) ∧ o.ring = true ∧ o.thread = true

/--
新しい handler を作る呼び出しは、すべて成功すれば完全な名前の handler を登録し、
どれかが失敗すれば NULL を返し、何も変えず、獲得したものをちょうど一度ずつ解放する。
-/
def AllOrNothing (o : CallResults) (st : HandlerList) (fac : Factory) : Prop :=
  ∃ st' ret log, fac.callWith o st = some (st', ret, log) ∧
    match fac.request with
    | none => st' = st ∧ ret = none ∧ log = []
    | some (name, body) =>
      match searchNamed st.handlers name with
      | none => False
      | some (some handler) => st' = st ∧ ret = some handler.addr ∧ log = []
      | some none =>
        (AllSucceed o name body → ∃ hd : LogHandler, hd.name = name ∧ hd.body = body ∧
          st' = { st with handlers := st.handlers ++ [⟨hd, true⟩] } ∧ ret = some hd.addr) ∧
        (¬ AllSucceed o name body → st' = st ∧ ret = none ∧ ReleasedOnce log ())

/-- 名前の長さの計算も、複写の書き込みも、定義された動作である。 -/
def NameDefined (o : CallResults) (name : CStr) : Prop :=
  nameLen name ≠ 2 ^ 31 - 1 ∧ (nameLen name = -1 → o.name = false)

/--
検索が名前の NULL な handler に行き当たらず、新しく作るなら、filename の複写に成功し、
ring と thread がともにできるときには名前も全部複写される。
-/
def CleanCall (o : CallResults) (st : HandlerList) (fac : Factory) : Prop :=
  ∀ name body, fac.request = some (name, body) →
    searchNamed st.handlers name ≠ none ∧
    (searchNamed st.handlers name = some none → o.struct ≠ none →
      NameDefined o name ∧ (body.type = .file → o.filename = true) ∧
      (o.ring = true → o.thread = true → o.name = true ∧ ShortName name))

/-! ## 名前の複写 -/

variable {o : CallResults} {st : HandlerList} {name : CStr} {body : HandlerBody} {ok : Bool}

theorem nameLen_mem (name : CStr) : -2 ^ 31 ≤ nameLen name ∧ nameLen name < 2 ^ 31 := by
  unfold nameLen Int.bmod
  dsimp only
  split <;> omega

theorem nameLen_of_short (h : ShortName name) : nameLen name = name.length := by
  unfold ShortName at h
  unfold nameLen Int.bmod
  dsimp only
  split <;> omega

theorem copyNameWith_eq_none :
    copyNameWith ok name = none ↔
      nameLen name = 2 ^ 31 - 1 ∨ ok = true ∧ nameLen name = -1 := by
  unfold copyNameWith
  by_cases hmax : nameLen name = 2 ^ 31 - 1
  · simp [hmax]
  · cases ok with
    | false => simp
    | true =>
      by_cases hlt : nameLen name < -1
      · have hne : nameLen name ≠ -1 := by omega
        simp [hlt, hne]
      · by_cases heq : nameLen name = -1
        · simp [heq]
        · simp [hlt, heq]

theorem nameDefined_iff : NameDefined o name ↔ copyNameWith o.name name ≠ none := by
  rw [ne_eq, copyNameWith_eq_none, not_or, not_and']
  refine and_congr_right fun _ => imp_congr_right fun _ => ?_
  rw [Bool.not_eq_true]

/-- 名前がすべて複写されるのは、確保に成功し、長さが `int` に収まるときである。 -/
theorem copyNameWith_eq_self :
    copyNameWith ok name = some (some name) ↔ ok = true ∧ ShortName name := by
  constructor
  · intro h
    obtain ⟨-, hhi⟩ := nameLen_mem name
    unfold copyNameWith at h
    split at h
    · cases h
    · next hmax =>
      split at h
      · cases h
      · next hok =>
        split at h
        · cases h
        · obtain ⟨hok, hlt⟩ := not_or.mp hok
          have htake : name.take (nameLen name).toNat = name := by simpa using h
          have hlen := congrArg CStr.length htake
          simp only [CStr.length, CStr.take, List.length_take] at hlen
          refine ⟨by simpa using hok, ?_⟩
          unfold ShortName CStr.length
          omega
  · rintro ⟨rfl, hshort⟩
    have hlen := nameLen_of_short hshort
    unfold ShortName at hshort
    unfold copyNameWith
    rw [if_neg (by omega), if_neg (by simp; omega), if_neg (by omega), hlen, Int.toNat_natCast,
      CStr.take_of_length_le le_rfl]

/-! ## 後始末 -/

theorem init_fst (type : HandlerType) : (type.init o).1 = (o.ring && o.thread) := by
  have hring : ∀ before after, (initRing o before after).1 = (o.ring && o.thread) := by
    intro before after
    unfold initRing
    cases o.ring <;> cases o.thread <;> rfl
  cases type with
  | console => exact hring _ _
  | file | socket | syslog => exact hring _ _

/-- 失敗した init は、獲得したものをすべて解放している。 -/
theorem initRing_balanced (h : (o.ring && o.thread) = false) (before after : List Resource)
    (x : Resource) :
    (initRing o before after).2.count (.release () x)
      = (initRing o before after).2.count (.acquire () x) := by
  unfold initRing
  cases hring : o.ring with
  | false => simp
  | true =>
    rw [hring, Bool.true_and] at h
    simp only [h, if_true, if_false, Bool.true_eq_false, List.count_append,
      count_acquire_acquireAll, count_release_releaseAll, count_release_acquireAll,
      count_acquire_releaseAll, List.cons_append, List.count_cons]
    omega

theorem init_balanced (h : (o.ring && o.thread) = false) (type : HandlerType) (x : Resource) :
    (type.init o).2.count (.release () x) = (type.init o).2.count (.acquire () x) := by
  have hlock : ∀ before after, (withLock (initRing o before after)).2.count (.release () x)
      = (withLock (initRing o before after)).2.count (.acquire () x) := by
    intro before after
    simp [withLock, initRing_balanced h, Nat.add_comm]
  cases type with
  | console => exact initRing_balanced h _ _ x
  | file | socket | syslog => exact hlock _ _

/-- init が獲得しうるもの。 -/
def initResources (before after : List Resource) : List Resource :=
  before ++ .ring :: after ++ [.wakeupLock, .wakeupCond]

/-- どの init も、同じものを二度は獲得せず、factory の獲得するものには触れない。 -/
theorem init_acquires (type : HandlerType) (x : Resource) :
    (type.init o).2.count (.acquire () x) ≤
      if x ∈ [Resource.struct, .name, .filename, .handlerLock] then 0 else 1 := by
  have hring : ∀ before after, (initRing o before after).2.count (.acquire () x) ≤
      (initResources before after).count x := by
    intro before after
    unfold initRing initResources
    cases o.ring <;> cases o.thread <;> simp
  have hlock : ∀ before after,
      (withLock (initRing o before after)).2.count (.acquire () x) ≤
        (Resource.locked :: initResources before after).count x := by
    intro before after
    have := hring before after
    simp only [withLock, List.count_append, count_acquire_acquireAll, count_acquire_releaseAll,
      List.count_cons, List.count_nil]
    omega
  cases type with
  | console => exact (hring [] []).trans (by cases x <;> decide)
  | file =>
    refine (hlock _ _).trans ?_
    cases o.stream <;> cases x <;> decide
  | socket =>
    refine (hlock _ _).trans ?_
    cases o.socket <;> cases o.cipher <;> cases x <;> decide
  | syslog => exact (hlock _ _).trans (by cases x <;> decide)

/-- 失敗した factory の記録。 -/
theorem releasedOnce_failed (h : (o.ring && o.thread) = false) (type : HandlerType)
    (named filed : Bool) :
    ReleasedOnce
      (acquireAll () (.struct :: opened named .name ++ .handlerLock :: opened filed .filename) ++
        (type.init o).2 ++
        releaseAll () (opened filed .filename ++ opened named .name ++ [.handlerLock, .struct]))
      () := by
  refine releasedOnce_of_balanced ?_ ?_
  · intro x
    have hinit := init_acquires (o := o) type x
    have hown : (.struct :: opened named .name ++ .handlerLock :: opened filed .filename).count x
        ≤ if x ∈ [Resource.struct, .name, .filename, .handlerLock] then 1 else 0 := by
      cases named <;> cases filed <;> cases x <;> decide
    rw [List.count_append, List.count_append, count_acquire_acquireAll, count_acquire_releaseAll]
    split at hinit
    · next hm =>
      rw [if_pos hm] at hown
      omega
    · next hm =>
      rw [if_neg hm] at hown
      omega
  · intro x
    simp only [List.count_append, init_balanced h, count_acquire_acquireAll,
      count_release_releaseAll, count_release_acquireAll, count_acquire_releaseAll,
      List.count_cons, List.cons_append, List.count_nil]
    omega

/-! ## 条件 -/

/-- 作るところまで進んだ呼び出しの、全部か無か。 -/
theorem createWith_iff (o : CallResults) (st : HandlerList) (name : CStr) (body : HandlerBody) :
    (∃ st' ret log, createWith o st name body = some (st', ret, log) ∧
      (AllSucceed o name body → ∃ hd : LogHandler, hd.name = name ∧ hd.body = body ∧
        st' = { st with handlers := st.handlers ++ [⟨hd, true⟩] } ∧ ret = some hd.addr) ∧
      (¬ AllSucceed o name body → st' = st ∧ ret = none ∧ ReleasedOnce log ())) ↔
    (o.struct ≠ none → NameDefined o name ∧ (body.type = .file → o.filename = true) ∧
      (o.ring = true → o.thread = true → o.name = true ∧ ShortName name)) := by
  unfold createWith
  cases hstruct : o.struct with
  | none =>
    refine iff_of_true ⟨st, none, [], rfl, ?_, ?_⟩ fun h => absurd rfl h
    · rintro ⟨hsome, -⟩
      exact absurd hstruct hsome
    · intro _
      exact ⟨rfl, rfl, fun x hm => by simp at hm⟩
  | some a =>
    simp only [ne_eq, reduceCtorEq, not_false_eq_true, forall_const]
    cases hcopy : copyNameWith o.name name with
    | none =>
      -- 名前の長さの計算か、領域の外への書き込みで未定義動作になる
      refine iff_of_false (by simp) ?_
      rintro ⟨hdef, -⟩
      exact nameDefined_iff.mp hdef hcopy
    | some name' =>
      have hdef : NameDefined o name :=
        nameDefined_iff.mpr (Option.ne_none_iff_exists'.mpr ⟨_, hcopy⟩)
      rw [Option.bind_some]
      by_cases hfile : body.type = .file ∧ o.filename = false
      · rw [if_pos hfile]
        refine iff_of_false (by simp) ?_
        rintro ⟨-, hcopied, -⟩
        rw [hcopied hfile.1] at hfile
        cases hfile.2
      · have hcopied : body.type = .file → o.filename = true := by
          intro htype
          by_contra hno
          exact hfile ⟨htype, by simpa using hno⟩
        rw [if_neg hfile, init_fst]
        cases hring : (o.ring && o.thread) with
        | false =>
          have hnot : ¬ (o.ring = true ∧ o.thread = true) := by
            rw [← Bool.and_eq_true, hring]
            simp
          refine iff_of_true ⟨st, none, _, rfl, ?_, ?_⟩ ⟨hdef, hcopied, fun hr ht => ?_⟩
          · rintro ⟨-, -, -, hr, ht⟩
            exact absurd ⟨hr, ht⟩ hnot
          · intro _
            exact ⟨rfl, rfl, releasedOnce_failed hring body.type _ _⟩
          · exact absurd ⟨hr, ht⟩ hnot
        | true =>
          obtain ⟨hr, ht⟩ := (Bool.and_eq_true ..).mp hring
          rw [if_pos rfl]
          constructor
          · rintro ⟨st', ret, log, heq, hall, hnone⟩
            obtain ⟨rfl, hrest⟩ := Prod.mk.inj (Option.some.inj heq)
            obtain ⟨rfl, rfl⟩ := Prod.mk.inj hrest
            refine ⟨hdef, hcopied, fun _ _ => ?_⟩
            by_cases hsucc : AllSucceed o name body
            · obtain ⟨hd, hname, -, hst, -⟩ := hall hsucc
              have hlast := List.append_cancel_left (congrArg HandlerList.handlers hst)
              obtain ⟨hhd, hnamed⟩ := NamedHandler.mk.inj (List.singleton_inj.mp hlast)
              obtain ⟨full, rfl⟩ := Option.isSome_iff_exists.mp hnamed
              have hfull : full = name := by rw [← hname, ← hhd]; rfl
              rw [hfull] at hcopy
              exact copyNameWith_eq_self.mp hcopy
            · exact absurd (hnone hsucc).2.1 (by simp)
          · rintro ⟨-, -, hname⟩
            obtain ⟨hok, hshort⟩ := hname hr ht
            obtain rfl : some name = name' := Option.some.inj
              ((copyNameWith_eq_self.mpr ⟨hok, hshort⟩).symm.trans hcopy)
            refine ⟨_, _, _, rfl, fun _ => ⟨_, rfl, rfl, rfl, rfl⟩, fun hnot => ?_⟩
            refine absurd ⟨by rw [hstruct]; simp, ⟨hok, ?_⟩, hcopied, hr, ht⟩ hnot
            rw [nameLen_of_short hshort]
            omega

/--
factory が全部か無かになるのは、検索が名前の NULL な handler に行き当たらず、
新しく作るなら、名前の長さの計算が定義されていて、filename の複写に成功し、
ring と thread がともにできるときには名前も全部複写されるとき、かつそのときに限る。
-/
theorem factory_all_or_nothing_iff (o : CallResults) (st : HandlerList) (fac : Factory) :
    AllOrNothing o st fac ↔ CleanCall o st fac := by
  unfold AllOrNothing CleanCall
  rw [callWith_eq]
  cases hreq : fac.request with
  | none =>
    refine iff_of_true ⟨st, none, [], rfl, rfl, rfl, rfl⟩ ?_
    intro name body h
    cases h
  | some request =>
    obtain ⟨name, body⟩ := request
    dsimp only
    unfold getOrCreateWith
    have hcond : ∀ P : CStr → HandlerBody → Prop,
        (∀ name' body', some (name, body) = some (name', body') → P name' body') ↔
          P name body := by
      intro P
      constructor
      · intro h
        exact h name body rfl
      · rintro h _ _ ⟨⟩
        exact h
    rw [hcond]
    cases hsearch : searchNamed st.handlers name with
    | none =>
      refine iff_of_false ?_ fun h => h.1 rfl
      rintro ⟨_, _, _, heq, -⟩
      cases heq
    | some found =>
      rw [Option.bind_some]
      cases found with
      | some handler =>
        refine iff_of_true ⟨st, some handler.addr, [], rfl, rfl, rfl, rfl⟩ ⟨by simp, ?_⟩
        intro h
        cases h
      | none =>
        dsimp only
        rw [createWith_iff]
        simp

/-- `lmk_init` の直後の、handler の無い list。 -/
def emptyList : HandlerList :=
  { config := { logBufferSize := 2048, ringBufferSize := 1024 }, handlers := [] }

/-- 番地 1 の構造体の名前の複写にだけ失敗する。 -/
def nameFails : CallResults :=
  { struct := some 1, name := false, filename := true, ring := true, thread := true
    stream := true, socket := true, cipher := true }

/-- 名前の複写に失敗しても、socket の factory は NULL を返さず、名前の無い handler を登録する。 -/
theorem unnamed_handler_registered :
    ¬ AllOrNothing nameFails emptyList (.socket (some ⟨[120], by decide⟩)) := by
  rintro ⟨st', ret, log, heq, -, hnone⟩
  have hret : ret = some 1 := by
    obtain ⟨-, hrest⟩ := Prod.mk.inj (Option.some.inj heq)
    exact (Prod.mk.inj hrest).1.symm
  have hfail : ¬ AllSucceed nameFails ⟨[120], by decide⟩ (.socket [] none) := by
    rintro ⟨-, ⟨hname, -⟩, -⟩
    cases hname
  rw [hret] at hnone
  cases (hnone hfail).2.1

/-! ## 失敗しない factory -/

/-- 呼び出しがすべて成功する。構造体の番地は `a` である。 -/
def allOk (a : Nat) : CallResults :=
  { struct := some a, name := true, filename := true, ring := true, thread := true
    stream := true, socket := true, cipher := true }

/-- どの名前も NULL でない list が表す registry。 -/
def HandlerList.registry (st : HandlerList) (loggers : List Logger) : Registry :=
  { initialized := true, config := some st.config, loggers
    handlers := st.handlers.map NamedHandler.handler }

theorem call_eq (r : Registry) (fac : Factory) :
    fac.call r = match fac.request with
      | some (name, body) => getOrCreateHandler r name body
      | none => some (r, none) := by
  cases fac with
  | console => rfl
  | file name filename => cases name <;> cases filename <;> rfl
  | socket name => cases name <;> rfl
  | syslog name ident facility => cases name <;> rfl

theorem searchNamed_eq {hs : List NamedHandler} (h : ∀ x ∈ hs, x.named = true) (name : CStr) :
    searchNamed hs name
      = some ((hs.map NamedHandler.handler).find? fun hd => hd.name = name) := by
  induction hs with
  | nil => rfl
  | cons x hs ih =>
    obtain ⟨hx, hs'⟩ := List.forall_mem_cons.mp h
    rw [searchNamed, if_neg (by simp [hx]), ih hs', List.map_cons]
    by_cases hname : x.handler.name = name
    · rw [if_pos hname, List.find?_cons_of_pos (by simpa using hname)]
    · rw [if_neg hname, List.find?_cons_of_neg (by simpa using hname)]

/-- すべて成功すれば、失敗しない factory と同じ handler を返し、同じ registry になる。 -/
theorem callWith_eq_call {st : HandlerList} (hnamed : ∀ h ∈ st.handlers, h.named = true)
    {fac : Factory} (hshort : ∀ p ∈ fac.request, ShortName p.1) (loggers : List Logger) :
    ∃ st' ret log,
      fac.callWith (allOk (st.registry loggers).freshAddr) st = some (st', ret, log) ∧
        fac.call (st.registry loggers) = some (st'.registry loggers, ret) := by
  rw [callWith_eq, call_eq]
  cases hreq : fac.request with
  | none => exact ⟨st, none, [], rfl, rfl⟩
  | some request =>
    obtain ⟨name, body⟩ := request
    have hcopy : copyNameWith true name = some (some name) :=
      copyNameWith_eq_self.mpr ⟨rfl, hshort _ hreq⟩
    have hsearch := searchNamed_eq hnamed name
    dsimp only
    unfold getOrCreateWith getOrCreateHandler
    change searchNamed st.handlers name
      = some (lmkSearchLogHandlerByName (st.registry loggers) name) at hsearch
    rw [hsearch, Option.bind_some]
    cases hfind : lmkSearchLogHandlerByName (st.registry loggers) name with
    | some handler => exact ⟨st, some handler.addr, [], rfl, rfl⟩
    | none =>
      have hinit : (body.type.init (allOk (st.registry loggers).freshAddr)).1 = true :=
        init_fst body.type
      unfold createWith allOk at *
      dsimp only at hinit ⊢
      rw [hcopy, Option.bind_some, if_neg (by simp), hinit, if_pos rfl,
        copyName_of_short (hshort _ hreq)]
      refine ⟨_, _, _, rfl, ?_⟩
      simp [HandlerList.registry]

end Logmoko
