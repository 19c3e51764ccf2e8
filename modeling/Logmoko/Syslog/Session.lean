import Logmoko.Syslog.Model

/-!
# syslog の handler どうしの干渉

message が送られるのは、送った handler の ident と facility ではなく、その時点の session の
下でである。したがって、二つ目の handler を別の ident か facility で作ると、一つ目の handler の
message は二つ目の名前で送られる（`message_sent_under_other_ident`）。
作り損ねたときと壊したときの `closelog` も、残りの handler の ident を取り消す。

干渉しないのは、session を書き換える step が、生きているどの handler の値も変えないときである。
-/

namespace Logmoko

open Transition

/-- 壊している途中の handler。 -/
def SyslogState.destroying (s : SyslogState) : Option Nat :=
  match s.call with
  | some (.destroying addr) => some addr
  | _ => none

/-- session を書き換えるなら、生きているどの handler にとっても同じ値に書き換える動作。 -/
def SyslogAction.KeepsSession (s : SyslogState) : SyslogAction → Prop
  | .getSyslogLogHandler (some name) ident facility true => s.NameFree name →
      ∀ h ∈ s.handlers, h.ident.orNull = (syslogIdent ident).orNull ∧ h.facility = facility
  | .finishInit false => ∀ h ∈ s.handlers, h.ident.orNull = none
  | .finishDestroy => ∀ h ∈ s.handlers, s.destroying ≠ some h.addr → h.ident.orNull = none
  | _ => True

instance (s : SyslogState) : DecidablePred (SyslogAction.KeepsSession s) := by
  intro a
  unfold SyslogAction.KeepsSession
  split <;> infer_instance

/-- 生きているどの handler の ident と facility も、いまの session のものである。 -/
def SyslogState.Published (s : SyslogState) : Prop :=
  ∀ c ∈ s.handlers.map SyslogHandler.session, c = s.session

/-- 渡された ident を 63 byte に切り詰めたもの。空なら program の名前になる。 -/
def expectedIdent (given : Option CStr) : Option CStr :=
  (given.map fun ident => ident.take 63).filter fun ident => ident.bytes ≠ []

/-- 送った handler が作られたときの ident と facility で送られた message。 -/
def SyslogMessage.Faithful (m : SyslogMessage) : Prop :=
  m.session = { ident := expectedIdent m.handler.given, facility := m.handler.facility }

theorem orNull_syslogIdent (given : Option CStr) :
    (syslogIdent given).orNull = expectedIdent given := by
  cases given with
  | none => rfl
  | some ident =>
    show (if (ident.take 63).bytes = [] then none else some (ident.take 63)) = _
    simp [expectedIdent, Option.filter]

theorem SyslogHandler.session_eq (h : SyslogHandler) :
    h.session = { ident := expectedIdent h.given, facility := h.facility } := by
  rw [← orNull_syslogIdent, ← h.ident_eq]
  rfl

/-! ## 一 step の効果 -/

/-- 一 step が handler と session にできること。 -/
inductive SyslogMove (s : SyslogState) : SyslogAction → SyslogState → Prop
  | quiet {a s'} (ha : a.KeepsSession s)
      (hh : s'.handlers.map SyslogHandler.session = s.handlers.map SyslogHandler.session)
      (hs : s'.session = s.session) (hc : ∀ h, s'.call = some (.creating h) → s.call = s'.call)
      (hsent : ∀ m ∈ s'.sent, m ∈ s.sent ∨ m.handler ∈ s.handlers ∧ m.session = s.session) :
      SyslogMove s a s'
  | opened {name name' ident facility} (hn : s.NameFree name) (hc : s.call = none) :
      SyslogMove s (.getSyslogLogHandler (some name) ident facility true)
        (let h := SyslogHandler.create s.freshAddr name' ident facility
        { s with call := some (.creating h), session := h.session })
  | started {h} (hc : s.call = some (.creating h)) :
      SyslogMove s (.finishInit true) { s with call := none, handlers := s.handlers ++ [h] }
  | failed {h} (hc : s.call = some (.creating h)) :
      SyslogMove s (.finishInit false) { s with call := none, session := s.session.closelog }
  | destroyed {addr} (hc : s.call = some (.destroying addr)) :
      SyslogMove s .finishDestroy
        { s with
          call := none, session := s.session.closelog
          handlers := s.handlers.filter fun h => h.addr ≠ addr }

variable {s s' : SyslogState} {a : SyslogAction}

/-- session に関わる値を変えない書き換え。 -/
theorem SyslogMove.setHandler {addr : Nat} {f : SyslogHandler → SyslogHandler}
    (ha : a.KeepsSession s) (hf : ∀ h, (f h).session = h.session) :
    SyslogMove s a (s.setHandler addr f) :=
  .quiet ha (Keyed.map_modify hf) rfl (fun _ _ => rfl) fun _ hm => .inl hm

theorem SyslogMove.refl (ha : a.KeepsSession s) : SyslogMove s a s :=
  .quiet ha rfl rfl (fun _ _ => rfl) fun _ hm => .inl hm

theorem getHandler_move {name ident : Option CStr} {facility : Int} {allocated : Bool}
    (hc : s.call = none) (h : s.getHandler name ident facility allocated = some s') :
    SyslogMove s (.getSyslogLogHandler name ident facility allocated) s' := by
  unfold SyslogState.getHandler at h
  cases name with
  | none =>
    obtain rfl : s = s' := Option.some.inj h
    exact .refl trivial
  | some name =>
    dsimp only at h
    split at h
    · next hn =>
      obtain ⟨hfree, rfl⟩ := hn
      obtain ⟨name', -, rfl⟩ := Option.map_eq_some_iff.mp h
      exact .opened hfree hc
    · next hn =>
      obtain rfl : s = s' := Option.some.inj h
      refine .refl ?_
      cases allocated with
      | false => trivial
      | true => exact fun hfree => absurd ⟨hfree, rfl⟩ hn

theorem emit_move {addr : Nat} (h : s.emit addr = some s') : SyslogMove s (.emit addr) s' := by
  obtain ⟨hd, hfind, h⟩ := Option.bind_eq_some_iff.mp h
  split at h
  · cases h
  · next req rest hring =>
    obtain rfl := Option.some.inj h
    refine .quiet trivial (Keyed.map_modify fun _ => rfl) rfl (fun _ _ => rfl) ?_
    intro m hm
    rcases List.mem_append.mp hm with hm | hm
    · exact Or.inl hm
    · obtain rfl := List.mem_singleton.mp hm
      exact Or.inr ⟨List.mem_of_find?_eq_some hfind, rfl⟩

theorem syslogStep_move (h : syslogStep s a = some s') : SyslogMove s a s' := by
  cases a with
  | getSyslogLogHandler name ident facility allocated =>
    obtain ⟨hc, h⟩ := Option.ite_none_right_eq_some.mp h
    exact getHandler_move (Option.isNone_iff_eq_none.mp hc) h
  | finishInit started =>
    simp only [syslogStep, SyslogState.finishInit] at h
    split at h
    · next hd hc =>
      cases started with
      | true =>
        obtain rfl := Option.some.inj h
        exact .started hc
      | false =>
        obtain rfl := Option.some.inj h
        exact .failed hc
    · cases h
  | destroyLogHandler addr =>
    obtain ⟨-, h⟩ := Option.ite_none_right_eq_some.mp h
    obtain ⟨hd, -, rfl⟩ := Option.map_eq_some_iff.mp h
    split
    · exact .refl trivial
    · exact .quiet trivial (Keyed.map_modify fun _ => rfl) rfl (fun _ hc => nomatch hc)
        fun _ hm => .inl hm
  | finishDestroy =>
    simp only [syslogStep, SyslogState.finishDestroy] at h
    split at h
    · next addr hc =>
      obtain ⟨-, h⟩ := Option.ite_none_right_eq_some.mp h
      obtain rfl := Option.some.inj h
      exact .destroyed hc
    · cases h
  | logImpl addr req hasRoom =>
    obtain rfl := Option.some.inj h
    refine .setHandler trivial ?_
    intro hd
    split <;> rfl
  | emit addr => exact emit_move h
  | createOther name =>
    obtain ⟨-, h⟩ := Option.ite_none_right_eq_some.mp h
    obtain rfl := Option.some.inj h
    exact .quiet trivial rfl rfl (fun _ _ => rfl) fun _ hm => .inl hm
  | destroyOther name =>
    obtain ⟨-, h⟩ := Option.ite_none_right_eq_some.mp h
    obtain rfl := Option.some.inj h
    exact .quiet trivial rfl rfl (fun _ _ => rfl) fun _ hm => .inl hm
  | attach addr =>
    obtain ⟨-, h⟩ := Option.ite_none_right_eq_some.mp h
    obtain rfl := Option.some.inj h
    exact .setHandler trivial fun _ => rfl
  | detach addr =>
    obtain ⟨-, h⟩ := Option.ite_none_right_eq_some.mp h
    obtain rfl := Option.some.inj h
    exact .setHandler trivial fun _ => rfl

/-! ## 不変量 -/

/-- 作る途中の handler の session が、いま開いている。 -/
def SyslogState.CreatingOpen (s : SyslogState) : Prop :=
  ∀ h, s.call = some (.creating h) → s.session = h.session

theorem SyslogState.CreatingOpen.step (hs : s.CreatingOpen) (h : syslogStep s a = some s') :
    s'.CreatingOpen := by
  cases syslogStep_move h with
  | quiet ha hh hses hc hsent =>
    intro hd hcall
    rw [hses]
    exact hs hd ((hc hd hcall).trans hcall)
  | opened hn hc =>
    intro hd hcall
    cases hcall
    rfl
  | started hc => exact fun _ hcall => nomatch hcall
  | failed hc => exact fun _ hcall => nomatch hcall
  | destroyed hc => exact fun _ hcall => nomatch hcall

/-- 合っている session を閉じても合ったままなのは、ident を持たない handler だけである。 -/
theorem session_eq_closelog_iff {h : SyslogHandler} {c : SyslogSession} (hc : h.session = c) :
    h.session = c.closelog ↔ h.ident.orNull = none := by
  subst hc
  simp [SyslogHandler.session, SyslogSession.closelog]

/-- 合っている状態からの一 step が合ったままにするのは、ちょうど条件を満たすときである。 -/
theorem published_step_iff (hc : s.CreatingOpen) (hs : s.Published)
    (h : syslogStep s a = some s') : s'.Published ↔ a.KeepsSession s := by
  have hses : ∀ hd ∈ s.handlers, hd.session = s.session := by
    intro hd hmem
    exact hs _ (List.mem_map_of_mem hmem)
  cases syslogStep_move h with
  | quiet ha hh hses' =>
    refine iff_of_true ?_ ha
    intro c hcm
    rw [hses']
    exact hs c (hh ▸ hcm)
  | opened hn =>
    show (∀ c ∈ s.handlers.map SyslogHandler.session, c = _) ↔ (s.NameFree _ → _)
    rw [List.forall_mem_map, forall_prop_of_true hn]
    refine forall₂_congr ?_
    intro hd _
    exact SyslogSession.mk.injEq .. ▸ Iff.rfl
  | started hcall =>
    refine iff_of_true ?_ trivial
    intro c hcm
    rw [List.map_append, List.mem_append] at hcm
    rcases hcm with hcm | hcm
    · exact hs c hcm
    · obtain rfl := List.mem_singleton.mp hcm
      exact (hc _ hcall).symm
  | failed hcall =>
    show (∀ c ∈ s.handlers.map SyslogHandler.session, c = s.session.closelog) ↔ _
    rw [List.forall_mem_map]
    exact forall₂_congr fun hd hmem => session_eq_closelog_iff (hses hd hmem)
  | @destroyed addr hcall =>
    show (∀ c ∈ (s.handlers.filter _).map SyslogHandler.session, c = s.session.closelog) ↔
      ∀ hd ∈ s.handlers, s.destroying ≠ some hd.addr → hd.ident.orNull = none
    have hdes : s.destroying = some addr := by rw [SyslogState.destroying, hcall]
    rw [List.forall_mem_map, hdes]
    constructor
    · intro hall hd hmem hne
      refine (session_eq_closelog_iff (hses hd hmem)).mp (hall hd ?_)
      rw [List.mem_filter]
      refine ⟨hmem, decide_eq_true ?_⟩
      rintro rfl
      exact hne rfl
    · intro hall hd hmem
      obtain ⟨hmem, hne⟩ := List.mem_filter.mp hmem
      refine (session_eq_closelog_iff (hses hd hmem)).mpr (hall hd hmem ?_)
      intro heq
      exact of_decide_eq_true hne (Option.some.inj heq).symm

theorem faithful_step (hs : s.Published) (hsent : ∀ m ∈ s.sent, m.Faithful)
    (h : syslogStep s a = some s') : ∀ m ∈ s'.sent, m.Faithful := by
  cases syslogStep_move h with
  | quiet _ _ _ _ hnew =>
    intro m hm
    rcases hnew m hm with hm | ⟨hmem, hses⟩
    · exact hsent m hm
    · show m.session = _
      rw [hses, ← hs _ (List.mem_map_of_mem hmem), SyslogHandler.session_eq]
  | opened => exact hsent
  | started => exact hsent
  | failed => exact hsent
  | destroyed => exact hsent

/-! ## 実行全体 -/

/--
どの step も生きている handler の ident と facility を session から失わせない実行では、
送られた message はすべて、送った handler が作られたときの ident（63 byte に切り詰めたもの）と
facility の下で送られている。
条件は緩められない。途中のどの状態でも、生きているすべての handler の ident と facility が
session のものであるのは、ちょうどこの条件が成り立つときである。
-/
theorem syslog_messages_faithful (as : List SyslogAction) (s : SyslogState)
    (h : run syslogStep .initial as = some s) :
    (Along syslogStep SyslogAction.KeepsSession .initial as → ∀ m ∈ s.sent, m.Faithful) ∧
    (Along syslogStep SyslogAction.KeepsSession .initial as ↔
      ∀ bs u, bs <+: as → run syslogStep .initial bs = some u →
        ∀ hd ∈ u.handlers, u.session =
          { ident := expectedIdent hd.given, facility := hd.facility }) := by
  have hopen : SyslogState.initial.CreatingOpen := fun _ hc => nomatch hc
  have hpub : SyslogState.initial.Published := by simp [SyslogState.Published, SyslogState.initial]
  constructor
  · intro hkeep
    refine (run_invariant (I := fun s => s.CreatingOpen ∧ s.Published ∧ ∀ m ∈ s.sent, m.Faithful)
      ?_ ⟨hopen, hpub, by simp [SyslogState.initial]⟩ hkeep h).2.2
    rintro s a s' ⟨hc, hp, hm⟩ ha h
    exact ⟨hc.step h, (published_step_iff hc hp h).mpr ha, faithful_step hp hm h⟩
  · rw [along_iff_of_prefixes (J := SyslogState.CreatingOpen) (I := SyslogState.Published)
      (fun _ _ _ hc h => hc.step h) (fun _ _ _ hc hp h => published_step_iff hc hp h) hopen hpub h]
    refine forall₄_congr ?_
    intro bs u _ _
    rw [SyslogState.Published, List.forall_mem_map]
    refine forall₂_congr ?_
    intro hd _
    rw [hd.session_eq, eq_comm]

/-- handler を一つ作って一件送る実行。 -/
def oneMessageRun : List SyslogAction :=
  [.getSyslogLogHandler (some (.lit [97])) (some (.lit [120])) 128 true,
    .finishInit true, .logImpl 1 emptyRequest true, .emit 1]

theorem syslog_messages_faithful_one : ∃ s, run syslogStep .initial oneMessageRun = some s ∧
    s.sent.length = 1 ∧ ∀ m ∈ s.sent, m.Faithful :=
  ⟨_, rfl, rfl, (syslog_messages_faithful oneMessageRun _ rfl).1 (by decide +kernel)⟩

/-- 一つ目の handler の message を送る前に、別の ident と facility で二つ目を作る実行。 -/
def twoHandlersRun : List SyslogAction :=
  [.getSyslogLogHandler (some (.lit [97])) (some (.lit [120])) 128 true,
    .finishInit true,
    .getSyslogLogHandler (some (.lit [98])) (some (.lit [121])) 136 true,
    .finishInit true, .logImpl 1 emptyRequest true, .emit 1]

/-- ident `x`、facility `LOG_LOCAL0` の handler の message が、`y`、`LOG_LOCAL1` として送られる。 -/
theorem message_sent_under_other_ident :
    ∃ s m, run syslogStep .initial twoHandlersRun = some s ∧ m ∈ s.sent ∧
      m.handler.given = some ⟨[120], by decide⟩ ∧ m.handler.facility = 128 ∧
      m.session = { ident := some ⟨[121], by decide⟩, facility := 136 } ∧ ¬ m.Faithful := by
  refine ⟨_, _, rfl, List.mem_singleton_self _, rfl, rfl, rfl, ?_⟩
  intro h
  have := congrArg SyslogSession.facility h
  exact absurd this (by decide)

end Logmoko
