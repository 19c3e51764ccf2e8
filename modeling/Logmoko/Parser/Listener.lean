import Logmoko.Parser.Key
import Logmoko.Registry.Invariant

/-!
# listener の登録

`lmk_attach_log_listener` は、頼まれた listener をそのまま一つ足すか、何も変えないはずである。
ところが host が読めないことも port が 16 bit に収まらないことも調べないので、
読めない host は `0.0.0.0` として、収まらない port は切り詰めて登録する。

* `attachLogListener` — 確保に失敗しうる `lmkAttachLogListener`
* `applySocketWith` — 確保に失敗しうる `applySocket`
* `listener_exact_iff` — 直接の呼び出しと設定 file の一行が、頼まれたとおりになる条件
-/

namespace Logmoko

open StrBuf

/-! ## 頼まれたもの -/

/-- `inet_pton` が読むのは、十進数四つを `.` で区切った、15 byte までの文字列だけである。 -/
def Env.Dotted (env : Env) : Prop := ∀ host : CStr, 15 < host.length → env.inetPton host = none

/-- 下位 16 bit を、上の byte が先に来るように並べた値。 -/
def htons (port : Int) : Nat :=
  let p := (port % 2 ^ 16).toNat
  p % 256 * 256 + p / 256

def ntohs (p : Nat) : Nat := p % 256 * 256 + p / 256

/-- 構造体の `sin_port` の値。 -/
def LogServer.netPort (s : LogServer) : Nat := htons s.sinPort

theorem ntohs_htons (port : Int) : ntohs (htons port) = (port % 2 ^ 16).toNat := by
  unfold ntohs htons
  dsimp only
  omega

/-- 文字列の先頭の十進数。`int` にも `long` にも収まらないことがある。 -/
def writtenPort (s : List UInt8) : Int :=
  match s.dropWhile isSpace with
  | 45 :: ds => -(decimalValue (ds.takeWhile isDigit) : Int)
  | 43 :: ds => decimalValue (ds.takeWhile isDigit)
  | ds => decimalValue (ds.takeWhile isDigit)

theorem strtol_eq (s : List UInt8) : strtol s = saturate (writtenPort s) := by
  unfold strtol writtenPort
  rcases s.dropWhile isSpace with _ | ⟨c, ds⟩
  · rfl
  · by_cases hminus : c = 45
    · subst hminus
      rfl
    · by_cases hplus : c = 43
      · subst hplus
        rfl
      · simp [hminus, hplus]

/-- `listener = host:port` の行が頼む host と port。最後の `:` が区切りである。 -/
def listenerRequest (val : CStr) : Option (CStr × Int) :=
  (strrchr val.bytes 58).map fun colon =>
    (val.take colon, writtenPort (val.drop (colon + 1)).bytes)

/-! ## listener の列 -/

def HandlerBody.servers : HandlerBody → List LogServer
  | .socket servers _ => servers
  | _ => []

/-- pointer の先の handler の listener。 -/
def Registry.listenersOf (r : Registry) (handler : Option Nat) : List LogServer :=
  ((handler.bind r.handler?).map fun h => h.body.servers).getD []

/-- pointer は socket の handler を指す。 -/
def Registry.IsSocket (r : Registry) (handler : Option Nat) : Prop :=
  (handler.bind r.handler?).map (fun h => h.body.type) = some .socket

instance (r : Registry) (handler : Option Nat) : Decidable (r.IsSocket handler) :=
  inferInstanceAs (Decidable (_ = _))

/-- 頼まれた listener を一つだけ足すか、どの列も変えない。 -/
def AttachExact (env : Env) (request : Option (CStr × Int)) (handler : Option Nat)
    (r r' : Registry) : Prop :=
  (∀ p, p ≠ handler → r'.listenersOf p = r.listenersOf p) ∧
    (r'.listenersOf handler = r.listenersOf handler ∨
      ∃ host port s, request = some (host, port) ∧ env.inetPton host = some s.sinAddr ∧
        (ntohs s.netPort : Int) = port ∧ r'.listenersOf handler = r.listenersOf handler ++ [s])

/-- 確保の成否 `alloc` を加えた `lmkAttachLogListener`。失敗すれば lock を取って離すだけである。 -/
def attachLogListener (alloc : Bool) (env : Env) (r : Registry) (handler : Option Nat)
    (host : Option CStr) (port : Int) : Registry :=
  if alloc then lmkAttachLogListener env r handler host port else r

/-- 確保の成否 `allocs` を加えた `applySocket`。 -/
def applySocketWith (allocs : Nat → Bool) (env : Env) (r : Registry) (ch : CfgHandler)
    (handler : Option Nat) : Registry :=
  ch.listeners.zipIdx.foldl
    (fun r l => attachLogListener (allocs l.2) env r handler (some l.1.host.str) l.1.port)
    (if ch.psk.str.bytes = [] then r else lmkSetSocketPsk env r handler (some ch.psk.str))

variable {env : Env} {r : Registry} {handler : Option Nat} {host : CStr} {port : Int}

/-- 確保がどれも成功すれば `applySocket` である。 -/
theorem applySocketWith_true (ch : CfgHandler) :
    applySocketWith (fun _ => true) env r ch handler = applySocket env r ch handler := by
  unfold applySocketWith applySocket
  rw [← List.zipIdx_map_fst 0 ch.listeners, List.foldl_map, List.zipIdx_map_fst]
  rfl

/-! ## 一つの呼び出し -/

/-- 実際に登録される listener。 -/
def storedServer (env : Env) (host : CStr) (port : Int) : LogServer :=
  { sinAddr := (env.inetPton host).getD 0, sinPort := (port % 2 ^ 16).toNat }

theorem netPort_storedServer (host : CStr) (port : Int) :
    (ntohs (storedServer env host port).netPort : Int) = port % 2 ^ 16 := by
  unfold LogServer.netPort
  rw [ntohs_htons]
  show ((((port % 2 ^ 16).toNat : Int) % 2 ^ 16).toNat : Int) = _
  omega

/-- `body` だけを書き換える設定関数の後の、pointer の先の handler。 -/
theorem map_body_onHandler {β : Type} (g : HandlerBody → HandlerBody) (k : HandlerBody → β)
    (handler p : Option Nat) :
    (p.bind (onHandler r handler (.setBody g)).handler?).map (fun h => k h.body)
      = (p.bind r.handler?).map fun h => if p = handler then k (g h.body) else k h.body := by
  cases p with
  | none => rfl
  | some b =>
    cases handler with
    | none => simp [onHandler]
    | some a =>
      simp only [Option.bind_some, Option.some.injEq]
      by_cases hba : b = a
      · subst hba
        have hfind : (r.setHandler b (.setBody g)).handler? b
            = (r.handler? b).map (LogHandler.setBody g) := Keyed.find?_modify_self fun _ => rfl
        show ((r.setHandler b (.setBody g)).handler? b).map _ = _
        rw [hfind, Option.map_map]
        simp [Function.comp_def, LogHandler.setBody]
      · have hfind : (r.setHandler a (.setBody g)).handler? b = r.handler? b :=
          Keyed.find?_modify_ne (fun _ => rfl) hba
        show ((r.setHandler a (.setBody g)).handler? b).map _ = _
        rw [hfind]
        simp [hba]

theorem map_body_attach {β : Type} (k : HandlerBody → β) (alloc : Bool) (p : Option Nat) :
    (p.bind (attachLogListener alloc env r handler (some host) port).handler?).map
        (fun h => k h.body)
      = (p.bind r.handler?).map fun h =>
        if p = handler ∧ alloc = true ∧ 0 < port then
          k (h.body.attachListener (storedServer env host port))
        else k h.body := by
  cases alloc with
  | false => simp [attachLogListener]
  | true =>
    unfold attachLogListener lmkAttachLogListener
    rw [if_pos rfl]
    dsimp only
    by_cases hport : port ≤ 0
    · rw [if_pos hport]
      simp [Int.not_lt.mpr hport]
    · rw [if_neg hport]
      refine (map_body_onHandler (.attachListener _) k handler p).trans ?_
      simp only [Int.not_le.mp hport, and_true, storedServer]

theorem isSocket_attach (alloc : Bool) (p : Option Nat) :
    (attachLogListener alloc env r handler (some host) port).IsSocket p ↔ r.IsSocket p := by
  unfold Registry.IsSocket
  rw [map_body_attach HandlerBody.type]
  simp only [type_attachListener, ite_self]

theorem listenersOf_attach_ne (alloc : Bool) {p : Option Nat} (hp : p ≠ handler) :
    (attachLogListener alloc env r handler (some host) port).listenersOf p = r.listenersOf p := by
  unfold Registry.listenersOf
  rw [map_body_attach HandlerBody.servers]
  simp only [hp, false_and, if_false]

/-- 足されるのは、socket の handler に正の port を渡し、確保に成功したときである。 -/
theorem listenersOf_attach (alloc : Bool) :
    (attachLogListener alloc env r handler (some host) port).listenersOf handler
      = if r.IsSocket handler ∧ alloc = true ∧ 0 < port then
          r.listenersOf handler ++ [storedServer env host port]
        else r.listenersOf handler := by
  by_cases hadd : r.IsSocket handler ∧ alloc = true ∧ 0 < port
  · obtain ⟨h, hfind, htype⟩ := Option.map_eq_some_iff.mp hadd.1
    rw [if_pos hadd]
    unfold Registry.listenersOf
    rw [map_body_attach HandlerBody.servers, hfind, Option.map_some, if_pos ⟨rfl, hadd.2⟩]
    cases hb : h.body with
    | socket servers psk => simp [hb, HandlerBody.attachListener, HandlerBody.servers]
    | console | file | syslog =>
      rw [hb] at htype
      cases htype
  · rw [if_neg hadd]
    unfold Registry.listenersOf
    rw [map_body_attach HandlerBody.servers]
    congr 1
    refine Option.map_congr ?_
    intro h hfind
    split
    · next hcall =>
      cases hb : h.body with
      | console | file | syslog => rfl
      | socket servers psk =>
        have hsocket : r.IsSocket handler := by
          rw [Registry.IsSocket, hfind, Option.map_some, hb]
          rfl
        exact absurd ⟨hsocket, hcall.2⟩ hadd
    · rfl

/-- 何もせずに戻るのでなければ、登録されるものが頼まれたものと一致しなければならない。 -/
theorem attachExact_iff (request : Option (CStr × Int)) (alloc : Bool) :
    AttachExact env request handler r (attachLogListener alloc env r handler (some host) port) ↔
      (r.IsSocket handler → alloc = true → 0 < port →
        ∃ host' port', request = some (host', port') ∧
          env.inetPton host' = some ((env.inetPton host).getD 0) ∧ port % 2 ^ 16 = port') := by
  constructor
  · rintro ⟨-, hexact⟩ hsocket halloc hport
    rw [listenersOf_attach, if_pos ⟨hsocket, halloc, hport⟩] at hexact
    rcases hexact with hsame | ⟨host', port', s, hreq, haddr, hp, hadd⟩
    · exact absurd hsame (by simp)
    · obtain rfl : storedServer env host port = s := by simpa using hadd
      exact ⟨host', port', hreq, haddr, (netPort_storedServer host port).symm.trans hp⟩
  · intro h
    refine ⟨fun p hp => listenersOf_attach_ne alloc hp, ?_⟩
    rw [listenersOf_attach]
    by_cases hadd : r.IsSocket handler ∧ alloc = true ∧ 0 < port
    · obtain ⟨host', port', hreq, haddr, hp⟩ := h hadd.1 hadd.2.1 hadd.2.2
      rw [if_pos hadd]
      exact Or.inr ⟨host', port', _, hreq, haddr, (netPort_storedServer host port).trans hp, rfl⟩
    · rw [if_neg hadd]
      exact Or.inl rfl

/-! ## 設定 file の一行 -/

/-- `listener` の行は、場所と `:` があれば listener を一つ足す。 -/
theorem listeners_parseListener (ch : CfgHandler) (val : CStr) :
    (parseListener ch val).listeners = ch.listeners ++
      if ch.listeners.length < 16 then
        ((strrchr val.bytes 58).map fun colon =>
          ({ host := .strncpy (by decide) (val.take colon)
             port := atoi (val.drop (colon + 1)) } : CfgListener)).toList
      else [] := by
  unfold parseListener
  cases strrchr val.bytes 58 with
  | none => simp
  | some colon =>
    show (if _ then _ else _) = _
    by_cases hroom : ch.listeners.length < 16
    · simp [hroom]
    · simp [hroom]

theorem psk_parseListener (ch : CfgHandler) (val : CStr) :
    (parseListener ch val).psk = ch.psk := by
  unfold parseListener
  split <;> rfl

theorem applySocketWith_isSocket (allocs : Nat → Bool) (ch : CfgHandler) (p : Option Nat) :
    (applySocketWith allocs env r ch handler).IsSocket p ↔ r.IsSocket p := by
  unfold applySocketWith
  generalize ch.listeners.zipIdx = ls
  have hpsk : (if ch.psk.str.bytes = [] then r
      else lmkSetSocketPsk env r handler (some ch.psk.str)).IsSocket p ↔ r.IsSocket p := by
    split
    · rfl
    · unfold lmkSetSocketPsk Registry.IsSocket
      rw [map_body_onHandler]
      simp only [type_setPsk, ite_self]
  rw [← hpsk]
  generalize (if ch.psk.str.bytes = [] then r
    else lmkSetSocketPsk env r handler (some ch.psk.str)) = u
  induction ls generalizing u with
  | nil => rfl
  | cons l ls ih =>
    rw [List.foldl_cons]
    exact (ih _).trans (isSocket_attach _ _)

/-- 足された listener は、section の最後に登録される。 -/
theorem applySocketWith_line (allocs : Nat → Bool) {ch : CfgHandler} {val : CStr} {colon : Nat}
    (hcolon : strrchr val.bytes 58 = some colon) (hroom : ch.listeners.length < 16) :
    applySocketWith allocs env r (parseListener ch val) handler
      = attachLogListener (allocs ch.listeners.length) env (applySocketWith allocs env r ch handler)
          handler (some ((val.take colon).take 63)) (atoi (val.drop (colon + 1))) := by
  have hls := listeners_parseListener ch val
  rw [if_pos hroom, hcolon] at hls
  unfold applySocketWith
  rw [psk_parseListener, hls]
  simp only [Option.map_some, Option.toList_some, List.zipIdx_append, List.foldl_append,
    Nat.zero_add]
  rfl

/-- `:` か場所が無ければ、行は何も足さない。 -/
theorem applySocketWith_ignored (allocs : Nat → Bool) {ch : CfgHandler} {val : CStr}
    (h : strrchr val.bytes 58 = none ∨ ¬ ch.listeners.length < 16) :
    applySocketWith allocs env r (parseListener ch val) handler
      = applySocketWith allocs env r ch handler := by
  have hls : (parseListener ch val).listeners = ch.listeners := by
    rw [listeners_parseListener]
    rcases h with hnone | hfull
    · simp [hnone]
    · simp [hfull]
  unfold applySocketWith
  rw [psk_parseListener, hls]

theorem atoi_mod_iff {s : CStr} (h : 0 < atoi s) :
    atoi s % 2 ^ 16 = writtenPort s.bytes ↔
      0 < writtenPort s.bytes ∧ writtenPort s.bytes < 2 ^ 16 := by
  unfold atoi at *
  rw [strtol_eq] at *
  generalize writtenPort s.bytes = q at *
  constructor
  · intro heq
    unfold Int.bmod at *
    dsimp only at *
    refine ⟨?_, by omega⟩
    by_contra hq
    obtain rfl : q = 0 := by omega
    exact absurd h (by decide)
  · rintro ⟨hlo, hhi⟩
    rw [saturate_of_mem (by omega) (by omega)]
    unfold Int.bmod
    dsimp only
    split <;> omega

/-- 頼まれた host は読めて、port は 1 から 65535 までにある。 -/
def ValidListener (env : Env) (host : CStr) (port : Int) : Prop :=
  (∃ addr, env.inetPton host = some addr) ∧ 0 < port ∧ port < 2 ^ 16

/-- 63 byte に切り詰められる host は、切り詰める前も読めない。 -/
theorem inetPton_take (hdot : env.Dotted) (host : CStr) :
    env.inetPton host = some ((env.inetPton (host.take 63)).getD 0) ↔
      ∃ addr, env.inetPton host = some addr := by
  constructor
  · intro h
    exact ⟨_, h⟩
  · rintro ⟨addr, h⟩
    have hshort : host.length ≤ 15 := by
      by_contra hlong
      rw [hdot host (by omega)] at h
      simp at h
    rw [CStr.take_of_length_le (by omega), h, Option.getD_some]

/-! ## 条件 -/

/--
直接の呼び出しでも設定 file の一行でも、頼まれた listener を一つだけ足すか何も変えないのは、
何もせずに戻るか、頼まれた host と port が正しいとき、かつそのときに限る。
-/
theorem listener_exact_iff (hdot : env.Dotted) (r : Registry) (handler : Option Nat) :
    (∀ (alloc : Bool) (host : CStr) (port : Int),
      AttachExact env (some (host, port)) handler r
          (attachLogListener alloc env r handler (some host) port) ↔
        (r.IsSocket handler → alloc = true → 0 < port → ValidListener env host port)) ∧
    ∀ (allocs : Nat → Bool) (ch : CfgHandler) (key val : CStr),
      key.strcasecmp (ascii "listener") = true →
      (AttachExact env (listenerRequest val) handler (applySocketWith allocs env r ch handler)
          (applySocketWith allocs env r (setHandlerKey ch key val) handler) ↔
        ∀ colon, strrchr val.bytes 58 = some colon → ch.listeners.length < 16 →
          r.IsSocket handler → allocs ch.listeners.length = true →
          0 < atoi (val.drop (colon + 1)) →
          ValidListener env (val.take colon) (writtenPort (val.drop (colon + 1)).bytes)) := by
  refine ⟨?_, ?_⟩
  · intro alloc host port
    rw [attachExact_iff]
    refine forall₃_congr ?_
    intro _ _ hport
    constructor
    · rintro ⟨_, _, hreq, haddr, hp⟩
      obtain ⟨rfl, rfl⟩ := Prod.mk.inj (Option.some.inj hreq)
      exact ⟨⟨_, haddr⟩, hport, by omega⟩
    · rintro ⟨⟨addr, haddr⟩, -, hlt⟩
      exact ⟨host, port, rfl, by rw [haddr, Option.getD_some], by omega⟩
  · intro allocs ch key val hkey
    rw [setHandlerKey_field (f := .listener) hkey]
    show AttachExact _ _ _ _ (applySocketWith allocs env r (parseListener ch val) handler) ↔ _
    by_cases hline : strrchr val.bytes 58 = none ∨ ¬ ch.listeners.length < 16
    · rw [applySocketWith_ignored allocs hline]
      refine iff_of_true ⟨fun _ _ => rfl, Or.inl rfl⟩ ?_
      intro colon hcolon hroom
      rcases hline with hnone | hfull
      · rw [hnone] at hcolon
        cases hcolon
      · exact absurd hroom hfull
    · obtain ⟨hsome, hroom⟩ := not_or.mp hline
      obtain ⟨colon, hcolon⟩ := Option.ne_none_iff_exists'.mp hsome
      rw [applySocketWith_line allocs hcolon (Classical.not_not.mp hroom), attachExact_iff,
        applySocketWith_isSocket, listenerRequest, hcolon]
      constructor
      · intro h _ hcolon' _ hsocket halloc hport
        obtain rfl := Option.some.inj hcolon'
        obtain ⟨_, _, hreq, haddr, hp⟩ := h hsocket halloc hport
        obtain ⟨rfl, rfl⟩ := Prod.mk.inj (Option.some.inj hreq)
        exact ⟨(inetPton_take hdot _).mp haddr, (atoi_mod_iff hport).mp hp⟩
      · intro h hsocket halloc hport
        obtain ⟨haddr, hp⟩ :=
          h colon rfl (Classical.not_not.mp hroom) hsocket halloc hport
        exact ⟨_, _, rfl, (inetPton_take hdot _).mpr haddr, (atoi_mod_iff hport).mpr hp⟩

/-- 番地 1 に、名前が `s` の socket の handler だけがある registry。 -/
def oneSocket : Registry :=
  { initialized := true, config := some { logBufferSize := 2048, ringBufferSize := 1024 }
    loggers := []
    handlers :=
      [{ addr := 1, name := ⟨[115], by decide⟩, logLevel := logLevelTrace, nrLoggerRef := 0
         initialized := true, formatFn := none, ringMask := 1023, body := .socket [] none }] }

/-- host の名前 `127.0.0.1`。 -/
def localHost : CStr := ⟨ascii "127.0.0.1", by decide⟩

theorem dotted_loopback : Env.loopback.Dotted := by
  intro host hlong
  refine if_neg ?_
  intro he
  have hlen : host.length = 9 := congrArg List.length he
  omega

theorem listener_exact_iff_local :
    AttachExact .loopback (some (localHost, 9000)) (some 1) oneSocket
      (attachLogListener true .loopback oneSocket (some 1) (some localHost) 9000) :=
  ((listener_exact_iff dotted_loopback oneSocket (some 1)).1 true localHost 9000).mpr
    fun _ _ _ => ⟨⟨0x0100007f, rfl⟩, by decide, by decide⟩

/-- 読めない host は `0.0.0.0` として、70000 番の port は 4464 番として登録される。 -/
theorem listener_not_exact :
    (¬ AttachExact .loopback (some (⟨[120], by decide⟩, 9000)) (some 1) oneSocket
        (attachLogListener true .loopback oneSocket (some 1) (some ⟨[120], by decide⟩) 9000)) ∧
      ¬ AttachExact .loopback (some (localHost, 70000)) (some 1) oneSocket
        (attachLogListener true .loopback oneSocket (some 1) (some localHost) 70000) := by
  constructor
  · intro h
    obtain ⟨_, _, hreq, haddr, -⟩ := (attachExact_iff _ true).mp h rfl rfl (by decide)
    obtain ⟨rfl, rfl⟩ := Prod.mk.inj (Option.some.inj hreq)
    exact absurd haddr (by decide)
  · intro h
    obtain ⟨_, _, hreq, -, hp⟩ := (attachExact_iff _ true).mp h rfl rfl (by decide)
    obtain ⟨rfl, rfl⟩ := Prod.mk.inj (Option.some.inj hreq)
    exact absurd hp (by decide)

end Logmoko
