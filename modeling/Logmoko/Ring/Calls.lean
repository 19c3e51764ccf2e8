import Logmoko.Ring.Preservation

/-!
# 呼び出しと位置の対応

一回の呼び出しが取る位置は高々一つで、1 を返した呼び出しはちょうど一つ、
0 を返した呼び出しは一つも取らない。

呼び出しの番号について、実行中の producer・claim の列・返り値の控えの三つを結ぶ不変量を置く。
番号は使い回されず、CAS に成功した後の位置にいる producer の番号だけが claim の列に現れる。
-/

namespace Logmoko

open Transition

variable {ι : Type} [DecidableEq ι]

/-- CAS に成功した後の実行位置。 -/
def EnqueuePc.claimed : EnqueuePc → Bool
  | .writing _ _ => true
  | .ret ok => ok
  | _ => false

/-- claim の列に現れる番号。 -/
def History.claimIds (h : History) : List Nat := h.claims.map EnqueueCall.id

/-- 返った呼び出しの番号。 -/
def History.returnedIds (h : History) : List Nat := h.returned.map Prod.fst

/-- 番号についての不変量。 -/
structure CallInv (h : History) (producers : ι → Producer) : Prop where
  active_lt : ∀ p c pc, producers p = .inCall c pc → c.id < h.nextCall
  active_inj : ∀ p p' c c' pc pc', producers p = .inCall c pc → producers p' = .inCall c' pc' →
    c.id = c'.id → p = p'
  active_not_returned : ∀ p c pc, producers p = .inCall c pc → c.id ∉ h.returnedIds
  active_claimed : ∀ p c pc, producers p = .inCall c pc → (c.id ∈ h.claimIds ↔ pc.claimed = true)
  claim_lt : ∀ id ∈ h.claimIds, id < h.nextCall
  claim_nodup : h.claimIds.Nodup
  returned_lt : ∀ id ∈ h.returnedIds, id < h.nextCall
  returned_nodup : h.returnedIds.Nodup
  returned_claimed : ∀ id ok, (id, ok) ∈ h.returned → (id ∈ h.claimIds ↔ ok = true)

omit [DecidableEq ι] in
theorem callInv_initial : CallInv History.empty (fun _ : ι => Producer.idle) := by
  constructor <;> simp [History.empty, History.claimIds, History.returnedIds]

section

variable {h : History} {f : ι → Producer}

theorem update_inCall {p p' : ι} {x : Producer} {c : EnqueueCall} {pc : EnqueuePc}
    (hu : Function.update f p x p' = .inCall c pc) :
    (p' = p ∧ x = .inCall c pc) ∨ (p' ≠ p ∧ f p' = .inCall c pc) := by
  by_cases hp : p' = p
  · subst hp
    rw [Function.update_self] at hu
    exact Or.inl ⟨rfl, hu⟩
  · rw [Function.update_of_ne hp] at hu
    exact Or.inr ⟨hp, hu⟩

/-- 位置だけを変える step の後で実行中の呼び出しは、前から続いている。 -/
theorem exists_inCall_of_update {p p' : ι} {c c' : EnqueueCall} {pc₀ pc pc' : EnqueuePc}
    (hp : f p = .inCall c pc₀) (hu : Function.update f p (.inCall c pc) p' = .inCall c' pc') :
    ∃ pc₁, f p' = .inCall c' pc₁ ∧ (pc₁ = pc' ∨ pc₁ = pc₀ ∧ pc' = pc) := by
  rcases update_inCall hu with ⟨rfl, he⟩ | ⟨_, hf⟩
  · obtain ⟨rfl, rfl⟩ := Producer.inCall.inj he
    exact ⟨pc₀, hp, Or.inr ⟨rfl, rfl⟩⟩
  · exact ⟨pc', hf, Or.inl rfl⟩

/-- 新しい呼び出しは、まだ使われていない番号を取る。 -/
theorem CallInv.call (hi : CallInv h f) {p : ι} {c : EnqueueCall} (hid : c.id = h.nextCall) :
    CallInv h.openCall (Function.update f p (.inCall c .loadHead)) := by
  have hfresh : ∀ p' c' pc', f p' = .inCall c' pc' → c'.id ≠ c.id := by
    intro p' c' pc' hp'
    have := hi.active_lt p' c' pc' hp'
    omega
  refine ⟨?_, ?_, ?_, ?_, fun id hm => Nat.lt_succ_of_lt (hi.claim_lt id hm), hi.claim_nodup,
    fun id hm => Nat.lt_succ_of_lt (hi.returned_lt id hm), hi.returned_nodup, hi.returned_claimed⟩
  · intro p' c' pc' hp'
    rcases update_inCall hp' with ⟨_, he⟩ | ⟨_, hf⟩
    · obtain ⟨rfl, rfl⟩ := Producer.inCall.inj he
      show c.id < h.nextCall + 1
      omega
    · exact Nat.lt_succ_of_lt (hi.active_lt p' c' pc' hf)
  · intro p₁ p₂ c₁ c₂ pc₁ pc₂ h₁ h₂ hc
    rcases update_inCall h₁ with ⟨e₁, he₁⟩ | ⟨_, hf₁⟩ <;>
      rcases update_inCall h₂ with ⟨e₂, he₂⟩ | ⟨_, hf₂⟩
    · rw [e₁, e₂]
    · obtain ⟨rfl, _⟩ := Producer.inCall.inj he₁
      exact absurd hc.symm (hfresh p₂ c₂ pc₂ hf₂)
    · obtain ⟨rfl, _⟩ := Producer.inCall.inj he₂
      exact absurd hc (hfresh p₁ c₁ pc₁ hf₁)
    · exact hi.active_inj p₁ p₂ c₁ c₂ pc₁ pc₂ hf₁ hf₂ hc
  · intro p' c' pc' hp' hm
    rcases update_inCall hp' with ⟨_, he⟩ | ⟨_, hf⟩
    · obtain ⟨rfl, _⟩ := Producer.inCall.inj he
      exact absurd (hi.returned_lt c.id hm) (by omega)
    · exact hi.active_not_returned p' c' pc' hf hm
  · -- 新しい呼び出しはまだ claim していないし、その番号は claim の列にも現れない
    intro p' c' pc' hp'
    rcases update_inCall hp' with ⟨_, he⟩ | ⟨_, hf⟩
    · obtain ⟨rfl, rfl⟩ := Producer.inCall.inj he
      refine ⟨?_, fun hc => by simp [EnqueuePc.claimed] at hc⟩
      intro hm
      exact absurd (hi.claim_lt c.id hm) (by omega)
    · exact hi.active_claimed p' c' pc' hf

/-- 呼び出しの中の位置が変わっても、どの thread がどの番号を持つかは変わらない。 -/
theorem CallInv.active_update (hi : CallInv h f) {p : ι} {c : EnqueueCall} {pc : EnqueuePc}
    (hp : f p = .inCall c pc) (pc' : EnqueuePc) :
    (∀ p₁ c₁ pc₁, Function.update f p (.inCall c pc') p₁ = .inCall c₁ pc₁ →
      c₁.id < h.nextCall ∧ c₁.id ∉ h.returnedIds) ∧
    (∀ p₁ p₂ c₁ c₂ pc₁ pc₂, Function.update f p (.inCall c pc') p₁ = .inCall c₁ pc₁ →
      Function.update f p (.inCall c pc') p₂ = .inCall c₂ pc₂ → c₁.id = c₂.id → p₁ = p₂) := by
  refine ⟨?_, ?_⟩
  · intro p₁ c₁ pc₁ h₁
    obtain ⟨pc₂, hf, _⟩ := exists_inCall_of_update hp h₁
    exact ⟨hi.active_lt p₁ c₁ pc₂ hf, hi.active_not_returned p₁ c₁ pc₂ hf⟩
  · intro p₁ p₂ c₁ c₂ pc₁ pc₂ h₁ h₂ hc
    obtain ⟨_, hf₁, _⟩ := exists_inCall_of_update hp h₁
    obtain ⟨_, hf₂, _⟩ := exists_inCall_of_update hp h₂
    exact hi.active_inj p₁ p₂ c₁ c₂ _ _ hf₁ hf₂ hc

/-- CAS の前後をまたがない step は番号に触らない。 -/
theorem CallInv.setPc (hi : CallInv h f) {p : ι} {c : EnqueueCall} {pc pc' : EnqueuePc}
    (hp : f p = .inCall c pc) (hpc : pc'.claimed = pc.claimed) :
    CallInv h (Function.update f p (.inCall c pc')) := by
  obtain ⟨hactive, hinj⟩ := hi.active_update hp pc'
  refine { hi with
    active_lt := fun p₁ c₁ pc₁ h₁ => (hactive p₁ c₁ pc₁ h₁).1
    active_inj := hinj
    active_not_returned := fun p₁ c₁ pc₁ h₁ => (hactive p₁ c₁ pc₁ h₁).2
    active_claimed := ?_ }
  · intro p₁ c₁ pc₁ h₁
    obtain ⟨pc₂, hf, hsame⟩ := exists_inCall_of_update hp h₁
    rcases hsame with rfl | ⟨rfl, rfl⟩
    · exact hi.active_claimed p₁ c₁ pc₂ hf
    · rw [hpc]
      exact hi.active_claimed p₁ c₁ pc₂ hf

/-- 成功した CAS は、まだ claim していない呼び出しを claim の列に加える。 -/
theorem CallInv.claim (hi : CallInv h f) {p : ι} {c : EnqueueCall} {pc pc' : EnqueuePc}
    (hp : f p = .inCall c pc) (hpc : pc.claimed = false) (hpc' : pc'.claimed = true) :
    CallInv { h with claims := h.claims ++ [c] } (Function.update f p (.inCall c pc')) := by
  have hnew : c.id ∉ h.claimIds := fun hm => by
    have := (hi.active_claimed p c pc hp).mp hm
    simp [hpc] at this
  have hids : History.claimIds { h with claims := h.claims ++ [c] } = h.claimIds ++ [c.id] := by
    simp [History.claimIds]
  have hmem : ∀ id, id ∈ History.claimIds { h with claims := h.claims ++ [c] } ↔
      id ∈ h.claimIds ∨ id = c.id := by
    intro id
    rw [hids, List.mem_append, List.mem_singleton]
  obtain ⟨hactive, hinj⟩ := hi.active_update hp pc'
  refine ⟨?_, hinj, ?_, ?_, ?_, ?_, hi.returned_lt, hi.returned_nodup, ?_⟩
  · exact fun p₁ c₁ pc₁ h₁ => (hactive p₁ c₁ pc₁ h₁).1
  · exact fun p₁ c₁ pc₁ h₁ => (hactive p₁ c₁ pc₁ h₁).2
  · -- 新しく claim したのは `p` の番号だけで、ほかの呼び出しの番号はそれと異なる
    intro p₁ c₁ pc₁ h₁
    rw [hmem]
    rcases update_inCall h₁ with ⟨_, he⟩ | ⟨hne, hf⟩
    · obtain ⟨rfl, rfl⟩ := Producer.inCall.inj he
      simp [hpc']
    · rw [hi.active_claimed p₁ c₁ pc₁ hf]
      have hid : c₁.id ≠ c.id := fun hc => hne (hi.active_inj p₁ p c₁ c pc₁ pc hf hp hc)
      simp [hid]
  · intro id hm
    rcases (hmem id).mp hm with hm | rfl
    · exact hi.claim_lt id hm
    · exact hi.active_lt p c pc hp
  · rw [hids, List.nodup_append]
    refine ⟨hi.claim_nodup, List.nodup_singleton _, ?_⟩
    intro a ha b hb hab
    rw [List.mem_singleton.mp hb] at hab
    exact hnew (hab ▸ ha)
  · intro id ok hm
    have hne : id ≠ c.id := fun he =>
      hi.active_not_returned p c pc hp (he ▸ List.mem_map_of_mem hm)
    rw [hmem, hi.returned_claimed id ok hm]
    simp [hne]

/-- 呼び出しが返る。 -/
theorem CallInv.ret (hi : CallInv h f) {p : ι} {c : EnqueueCall} {ok : Bool}
    (hp : f p = .inCall c (.ret ok)) :
    CallInv (h.closeCall c.id ok) (Function.update f p .idle) := by
  have hids : (h.closeCall c.id ok).returnedIds = h.returnedIds ++ [c.id] := by
    simp [History.closeCall, History.returnedIds]
  have hold : ∀ p₁ c₁ pc₁, Function.update f p .idle p₁ = .inCall c₁ pc₁ →
      p₁ ≠ p ∧ f p₁ = .inCall c₁ pc₁ := by
    intro p₁ c₁ pc₁ h₁
    rcases update_inCall h₁ with ⟨_, he⟩ | hf
    · cases he
    · exact hf
  refine ⟨fun p₁ c₁ pc₁ h₁ => hi.active_lt p₁ c₁ pc₁ (hold _ _ _ h₁).2, ?_, ?_,
    fun p₁ c₁ pc₁ h₁ => hi.active_claimed p₁ c₁ pc₁ (hold _ _ _ h₁).2, hi.claim_lt,
    hi.claim_nodup, ?_, ?_, ?_⟩
  · intro p₁ p₂ c₁ c₂ pc₁ pc₂ h₁ h₂ hc
    exact hi.active_inj p₁ p₂ c₁ c₂ pc₁ pc₂ (hold _ _ _ h₁).2 (hold _ _ _ h₂).2 hc
  · intro p₁ c₁ pc₁ h₁ hm
    obtain ⟨hne, hf⟩ := hold p₁ c₁ pc₁ h₁
    rw [hids, List.mem_append, List.mem_singleton] at hm
    rcases hm with hm | hm
    · exact hi.active_not_returned p₁ c₁ pc₁ hf hm
    · exact hne (hi.active_inj p₁ p c₁ c pc₁ _ hf hp hm)
  · intro id hm
    rw [hids, List.mem_append, List.mem_singleton] at hm
    rcases hm with hm | rfl
    · exact hi.returned_lt id hm
    · exact hi.active_lt p c _ hp
  · rw [hids, List.nodup_append]
    refine ⟨hi.returned_nodup, List.nodup_singleton _, ?_⟩
    intro a ha b hb hab
    rw [List.mem_singleton.mp hb] at hab
    exact hi.active_not_returned p c _ hp (hab ▸ ha)
  · intro id ok' hm
    simp only [History.closeCall, List.mem_append, List.mem_singleton, Prod.mk.injEq] at hm
    rcases hm with hm | ⟨rfl, rfl⟩
    · exact hi.returned_claimed id ok' hm
    · exact hi.active_claimed p c _ hp

end

/-- どの step も番号の不変量を保つ。 -/
theorem callInv_step {s s' : RingState ι} {a : RingAction ι} (h : CallInv s.mem.hist s.producers)
    (hs : ringStep .unbounded s a = some s') : CallInv s'.mem.hist s'.producers := by
  cases ringStep_move hs with
  | call hp => exact h.call rfl
  | loadHead hp | seqReady hp hseq | seqFull hp hseq | seqAhead hp hseq | casFail hp
  | write hp hne | publish hp => exact h.setPc hp rfl
  | casOk hp => exact h.claim hp rfl rfl
  | ret hp => exact h.ret hp
  | peekReady | peekEmpty | process | advance => exact h
  | release hc => exact { h with }

theorem callInv_reachable {k : Nat} {s : RingState ι}
    (h : Reachable (ringStep .unbounded) (ringInitial ι k) s) :
    CallInv s.mem.hist s.producers :=
  h.invariant (I := fun s => CallInv s.mem.hist s.producers)
    (fun _ _ _ hs hstep => callInv_step hs hstep) callInv_initial

end Logmoko
