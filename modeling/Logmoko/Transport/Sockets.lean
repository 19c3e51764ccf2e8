import Logmoko.Transport.Connector

/-!
# 自分の socket だけを使う

socket の handler が `sendto` と `close` に渡す descriptor は、その handler 自身の
`lmk_open_udp_socket` が開いた、まだ閉じられていないものでなければならない。

`lmk_open_udp_socket` の返り値は調べられず、失敗した handler の `sockd` は 0 のままである。
その handler も listener に送り、最後には descriptor 0 を閉じる。

* `SocketInv` — どの `socket()` も成功する実行の不変量
* `sockets_owned_iff` — 自分の socket だけを使うための条件
-/

namespace Logmoko

open Transition Ledger

/-! ## 持っている間 -/

/-- descriptor を開く前か、持っているか、閉じた後か。 -/
inductive SocketStage where
  | before
  | owning
  | after
deriving DecidableEq

def SocketPhase.stage : SocketPhase → SocketStage
  | .absent | .opening => .before
  | .gone => .after
  | _ => .owning

theorem stage_setSender (c : SenderPc) (p : SocketPhase) : (p.setSender c).stage = p.stage := by
  cases p <;> rfl

theorem stage_of_sender {p : SocketPhase} (h : p.sender?.isSome) : p.stage = .owning := by
  cases p with
  | live | stopping => rfl
  | _ => cases h

variable {tr : List (Event Nat Nat)} {s s' : SocketSystem} {hd hd' : SocketHandler}
  {a : SocketStep} {act : SocketAction} {h fd : Nat}

/-- descriptor を開きも閉じもしない動作は、持っている間に起こり、descriptor を変えない。 -/
theorem step_keeps (hs : hd.step a = some hd') :
    hd.phase.stage = .owning ∧ hd'.phase.stage = .owning ∧ hd'.sockd = hd.sockd := by
  cases a with
  | allocRing ok | createThread ok =>
    obtain ⟨hp, heq⟩ := Option.ite_none_right_eq_some.mp hs
    obtain rfl := Option.some.inj heq
    rw [hp]
    cases ok <;> exact ⟨rfl, rfl, rfl⟩
  | exit | join =>
    obtain ⟨hp, heq⟩ := Option.ite_none_right_eq_some.mp hs
    obtain rfl := Option.some.inj heq
    rw [hp]
    exact ⟨rfl, rfl, rfl⟩
  | attach server | setPsk | destroy =>
    unfold SocketHandler.step at hs
    dsimp only at hs
    split at hs
    · next hp =>
      obtain rfl := Option.some.inj hs
      rw [hp]
      exact ⟨rfl, rfl, rfl⟩
    · cases hs
  | log accepted =>
    obtain ⟨hp, heq⟩ := Option.ite_none_right_eq_some.mp hs
    obtain rfl := Option.some.inj heq
    exact ⟨stage_of_sender hp, stage_of_sender hp, rfl⟩
  | peek formatted =>
    obtain ⟨hp, heq⟩ := Option.ite_none_right_eq_some.mp hs
    obtain rfl := Option.some.inj heq
    have hstage := stage_of_sender (Option.isSome_of_eq_some hp.1)
    cases formatted with
    | true => exact ⟨hstage, (stage_setSender _ _).trans hstage, rfl⟩
    | false => exact ⟨hstage, hstage, rfl⟩
  | send _ | consume =>
    unfold SocketHandler.step at hs
    dsimp only at hs
    split at hs
    · next hp =>
      have hstage := stage_of_sender (Option.isSome_of_eq_some hp)
      obtain ⟨-, heq⟩ := Option.ite_none_right_eq_some.mp hs
      obtain rfl := Option.some.inj heq
      exact ⟨hstage, (stage_setSender _ _).trans hstage, rfl⟩
    · cases hs

/-! ## 不変量 -/

/-- どの `socket()` も成功する実行の不変量。`tr` はそれまでの記録である。 -/
structure SocketInv (tr : List (Event Nat Nat)) (s : SocketSystem) : Prop where
  disciplined : Disciplined tr
  acquired : ∀ h x, .acquire h x ∈ tr →
    (s.handlers h).phase.stage ≠ .before ∧ x = (s.handlers h).sockd
  holds : ∀ h, (s.handlers h).phase.stage = .owning → Owns tr h (s.handlers h).sockd
  notReleased : ∀ h x, (s.handlers h).phase.stage ≠ .after → .release h x ∉ tr
  released : ∀ h, (s.handlers h).phase.stage = .after →
    tr.count (.release h (s.handlers h).sockd) = 1
  distinct : ∀ h h', (s.handlers h).phase.stage = .owning →
    (s.handlers h').phase.stage = .owning →
    (s.handlers h).sockd = (s.handlers h').sockd → h = h'
  isOpen : ∀ h, (s.handlers h).phase.stage = .owning → (s.handlers h).sockd ∈ s.openFds
  notHost : ∀ h, (s.handlers h).phase.stage = .owning → (s.handlers h).sockd ∉ s.hostFds
  hostOpen : s.hostFds ⊆ s.openFds

theorem socketInv_initial (host : Finset Nat) : SocketInv [] (socketInitial host) where
  disciplined := disciplined_nil
  acquired h x hm := by simp at hm
  holds h hs := by cases hs
  notReleased h x _ := by simp
  released h hs := by cases hs
  distinct h h' hs := by cases hs
  isOpen h hs := by cases hs
  notHost h hs := by cases hs
  hostOpen := fun _ hx => hx

/-- 開く前の `sockd` のほかに、持っているかどうかも descriptor も変えない動作。 -/
theorem SocketInv.frame (hinv : SocketInv tr s)
    (hstage : ∀ h, (s'.handlers h).phase.stage = (s.handlers h).phase.stage)
    (hsockd : ∀ h, (s.handlers h).phase.stage ≠ .before →
      (s'.handlers h).sockd = (s.handlers h).sockd)
    (hopen : ∀ h, (s.handlers h).phase.stage = .owning →
      (s.handlers h).sockd ∈ s.openFds → (s.handlers h).sockd ∈ s'.openFds)
    (hhost : ∀ h, (s.handlers h).phase.stage = .owning →
      (s.handlers h).sockd ∉ s.hostFds → (s.handlers h).sockd ∉ s'.hostFds)
    (hsub : s'.hostFds ⊆ s'.openFds) : SocketInv tr s' := by
  have howning : ∀ {h}, (s'.handlers h).phase.stage = .owning →
      (s.handlers h).phase.stage = .owning ∧ (s'.handlers h).sockd = (s.handlers h).sockd := by
    intro h hs
    rw [hstage] at hs
    exact ⟨hs, hsockd h (by rw [hs]; simp)⟩
  refine ⟨hinv.disciplined, ?_, ?_, ?_, ?_, ?_, ?_, ?_, hsub⟩
  · intro h x hm
    obtain ⟨hne, rfl⟩ := hinv.acquired h x hm
    exact ⟨by rwa [hstage], (hsockd h hne).symm⟩
  · intro h hs
    obtain ⟨hs, hsock⟩ := howning hs
    rw [hsock]
    exact hinv.holds h hs
  · intro h x hs
    rw [hstage] at hs
    exact hinv.notReleased h x hs
  · intro h hs
    rw [hstage] at hs
    rw [hsockd h (by rw [hs]; simp)]
    exact hinv.released h hs
  · intro h h' hs hs' heq
    obtain ⟨hs, hsock⟩ := howning hs
    obtain ⟨hs', hsock'⟩ := howning hs'
    rw [hsock, hsock'] at heq
    exact hinv.distinct h h' hs hs' heq
  · intro h hs
    obtain ⟨hs, hsock⟩ := howning hs
    rw [hsock]
    exact hopen h hs (hinv.isOpen h hs)
  · intro h hs
    obtain ⟨hs, hsock⟩ := howning hs
    rw [hsock]
    exact hhost h hs (hinv.notHost h hs)

/-- 持っている descriptor への送信。 -/
theorem SocketInv.use (hinv : SocketInv tr s) (hs : (s.handlers h).phase.stage = .owning) :
    SocketInv (tr ++ [.use h (s.handlers h).sockd]) s where
  disciplined := disciplined_snoc.mpr ⟨hinv.disciplined, hinv.holds h hs⟩
  acquired k x hm := hinv.acquired k x (by simpa using hm)
  holds k hk := (hinv.holds k hk).append (by simp)
  notReleased k x hk := by simpa using hinv.notReleased k x hk
  released k hk := by simpa using hinv.released k hk
  distinct := hinv.distinct
  isOpen := hinv.isOpen
  notHost := hinv.notHost
  hostOpen := hinv.hostOpen

theorem put_self (s : SocketSystem) (h : Nat) (hd : SocketHandler) :
    (s.put h hd).handlers h = hd := Function.update_self ..

theorem put_ne (s : SocketSystem) {h k : Nat} (hk : k ≠ h) (hd : SocketHandler) :
    (s.put h hd).handlers k = s.handlers k := Function.update_of_ne hk ..

theorem put_sockd (s : SocketSystem) (hd' : hd.sockd = (s.handlers h).sockd) (k : Nat) :
    ((s.put h hd).handlers k).sockd = (s.handlers k).sockd := by
  by_cases hkh : k = h
  · rw [hkh, put_self, hd']
  · rw [put_ne s hkh]

theorem put_stage (s : SocketSystem) (hd' : hd.phase.stage = (s.handlers h).phase.stage)
    (k : Nat) : ((s.put h hd).handlers k).phase.stage = (s.handlers k).phase.stage := by
  by_cases hkh : k = h
  · rw [hkh, put_self, hd']
  · rw [put_ne s hkh]

/-- 成功した `socket()`。返る番号は、どの handler のものとも異なる。 -/
theorem SocketInv.opened (hinv : SocketInv tr s) (hbefore : (s.handlers h).phase.stage = .before)
    (hfd : fd ∉ s.openFds) (hself : (s'.handlers h).phase.stage = .owning)
    (hsockd : (s'.handlers h).sockd = fd) (hother : ∀ k, k ≠ h → s'.handlers k = s.handlers k)
    (hopen : s'.openFds = insert fd s.openFds) (hhost : s'.hostFds = s.hostFds) :
    SocketInv (tr ++ [.acquire h fd]) s' := by
  have howning : ∀ {k}, (s'.handlers k).phase.stage = .owning →
      (k = h ∧ (s'.handlers k).sockd = fd) ∨ ((s.handlers k).phase.stage = .owning ∧
        (s'.handlers k).sockd = (s.handlers k).sockd ∧ (s.handlers k).sockd ≠ fd) := by
    intro k hk
    by_cases hkh : k = h
    · exact Or.inl ⟨hkh, hkh ▸ hsockd⟩
    · rw [hother k hkh] at hk ⊢
      exact Or.inr ⟨hk, rfl, fun heq => hfd (heq ▸ hinv.isOpen k hk)⟩
  constructor
  case disciplined => exact disciplined_snoc.mpr ⟨hinv.disciplined, trivial⟩
  case acquired =>
    intro k x hm
    rcases List.mem_append.mp hm with hm | hm
    · obtain ⟨hne, rfl⟩ := hinv.acquired k x hm
      have hk : k ≠ h := by
        rintro rfl
        exact hne hbefore
      rw [hother k hk]
      exact ⟨hne, rfl⟩
    · obtain ⟨rfl, rfl⟩ : k = h ∧ x = fd := by simpa using hm
      rw [hself]
      exact ⟨by simp, hsockd.symm⟩
  case holds =>
    intro k hk
    rcases howning hk with ⟨rfl, hsock⟩ | ⟨hk, hsock, -⟩
    · rw [hsock]
      exact owns_acquire
    · rw [hsock]
      exact (hinv.holds k hk).append (by simp)
  case notReleased =>
    intro k x hk
    have hk' : (s.handlers k).phase.stage ≠ .after := by
      by_cases hkh : k = h
      · rw [hkh, hbefore]
        simp
      · rwa [hother k hkh] at hk
    simpa using hinv.notReleased k x hk'
  case released =>
    intro k hk
    have hkh : k ≠ h := by
      rintro rfl
      rw [hself] at hk
      cases hk
    rw [hother k hkh] at hk ⊢
    simpa using hinv.released k hk
  case distinct =>
    intro k k' hk hk' heq
    rcases howning hk with ⟨rfl, hsock⟩ | ⟨hk, hsock, hne⟩
    · rcases howning hk' with ⟨rfl, -⟩ | ⟨-, hsock', hne'⟩
      · rfl
      · rw [hsock, hsock'] at heq
        exact absurd heq.symm hne'
    · rcases howning hk' with ⟨rfl, hsock'⟩ | ⟨hk', hsock', -⟩
      · rw [hsock, hsock'] at heq
        exact absurd heq hne
      · rw [hsock, hsock'] at heq
        exact hinv.distinct k k' hk hk' heq
  case isOpen =>
    intro k hk
    rw [hopen]
    rcases howning hk with ⟨-, hsock⟩ | ⟨hk, hsock, -⟩
    · rw [hsock]
      exact Finset.mem_insert_self _ _
    · rw [hsock]
      exact Finset.mem_insert_of_mem (hinv.isOpen k hk)
  case notHost =>
    intro k hk
    rw [hhost]
    rcases howning hk with ⟨-, hsock⟩ | ⟨hk, hsock, -⟩
    · rw [hsock]
      exact fun hx => hfd (hinv.hostOpen hx)
    · rw [hsock]
      exact hinv.notHost k hk
  case hostOpen =>
    rw [hopen, hhost]
    exact hinv.hostOpen.trans (Finset.subset_insert _ _)

/-- 後始末の `close`。閉じるのは自分の番号だけである。 -/
theorem SocketInv.close (hinv : SocketInv tr s) (hs : (s.handlers h).phase.stage = .owning)
    (hself : (s'.handlers h).phase.stage = .after)
    (hsockd : ∀ k, (s'.handlers k).sockd = (s.handlers k).sockd)
    (hother : ∀ k, k ≠ h → s'.handlers k = s.handlers k)
    (hopen : s'.openFds = s.openFds.erase (s.handlers h).sockd)
    (hhost : s'.hostFds = s.hostFds.erase (s.handlers h).sockd) :
    SocketInv (tr ++ [.release h (s.handlers h).sockd]) s' := by
  have howning : ∀ {k}, (s'.handlers k).phase.stage = .owning →
      (s.handlers k).phase.stage = .owning ∧ (s.handlers k).sockd ≠ (s.handlers h).sockd := by
    intro k hk
    have hkh : k ≠ h := by
      rintro rfl
      rw [hself] at hk
      cases hk
    rw [hother k hkh] at hk
    exact ⟨hk, fun heq => hkh (hinv.distinct k h hk hs heq)⟩
  constructor
  case disciplined => exact disciplined_snoc.mpr ⟨hinv.disciplined, hinv.holds h hs⟩
  case acquired =>
    intro k x hm
    obtain ⟨hne, rfl⟩ := hinv.acquired k x (by simpa using hm)
    refine ⟨?_, (hsockd k).symm⟩
    by_cases hkh : k = h
    · rw [hkh, hself]
      simp
    · rwa [hother k hkh]
  case holds =>
    intro k hk
    obtain ⟨hk, hne⟩ := howning hk
    rw [hsockd]
    refine (hinv.holds k hk).append ?_
    simp [hne]
  case notReleased =>
    intro k x hk hm
    by_cases hkh : k = h
    · rw [hkh] at hk
      exact hk hself
    · rw [hother k hkh] at hk
      refine hinv.notReleased k x hk ?_
      simpa [hkh] using hm
  case released =>
    intro k hk
    rw [hsockd, List.count_append]
    by_cases hkh : k = h
    · subst hkh
      rw [List.count_eq_zero.mpr (hinv.notReleased k _ (by rw [hs]; simp))]
      simp
    · rw [hother k hkh] at hk
      rw [hinv.released k hk, List.count_eq_zero.mpr]
      simp [hkh]
  case distinct =>
    intro k k' hk hk' heq
    rw [hsockd, hsockd] at heq
    exact hinv.distinct k k' (howning hk).1 (howning hk').1 heq
  case isOpen =>
    intro k hk
    obtain ⟨hk, hne⟩ := howning hk
    rw [hopen, hsockd]
    exact Finset.mem_erase.mpr ⟨hne, hinv.isOpen k hk⟩
  case notHost =>
    intro k hk
    rw [hhost, hsockd]
    exact fun hx => hinv.notHost k (howning hk).1 (Finset.mem_of_mem_erase hx)
  case hostOpen =>
    rw [hopen, hhost]
    exact Finset.erase_subset_erase _ hinv.hostOpen

/-! ## 実行 -/

/-- どの `socket()` も成功する。 -/
def AllOpened (acts : List SocketAction) : Prop := ∀ h, .socket h none ∉ acts

/-- 使い、閉じた descriptor はどれも自分のもので、解放された handler は一度ずつ閉じている。 -/
def OwnedSockets (tr : List (Event Nat Nat)) (s : SocketSystem) : Prop :=
  Disciplined tr ∧ ∀ h, (s.handlers h).phase = .gone → ReleasedOnce tr h

theorem stage_closing {p : SocketPhase} (h : p.Closing) : p.stage = .owning := by
  cases p with
  | ringFailed | threadFailed | joined => rfl
  | _ => cases h

theorem stage_after {p : SocketPhase} : p.stage = .after ↔ p = .gone := by
  cases p <;> simp [SocketPhase.stage]

theorem SocketInv.owned (hinv : SocketInv tr s) : OwnedSockets tr s := by
  refine ⟨hinv.disciplined, ?_⟩
  intro h hgone x hm
  obtain ⟨-, rfl⟩ := hinv.acquired h x hm
  exact hinv.released h (stage_after.mpr hgone)

/-- descriptor を開きも閉じもしない動作は、descriptor を変えないので、不変量を保つ。 -/
theorem SocketInv.put_step (hinv : SocketInv tr s) (hs : (s.handlers h).step a = some hd') :
    SocketInv tr (s.put h hd') := by
  obtain ⟨hown, hown', hsock⟩ := step_keeps hs
  refine hinv.frame ?_ ?_ (fun _ _ hx => hx) (fun _ _ hx => hx) hinv.hostOpen
  · exact put_stage s (hown'.trans hown.symm)
  · exact fun k _ => put_sockd s hsock k

/-- 確保された handler は、まだ descriptor を持たない。 -/
theorem SocketInv.created (hinv : SocketInv tr s) (hbefore : (s.handlers h).phase.stage = .before)
    (hstage : hd.phase.stage = .before) : SocketInv tr (s.put h hd) := by
  refine hinv.frame ?_ ?_ (fun _ _ hx => hx) (fun _ _ hx => hx) hinv.hostOpen
  · exact put_stage s (hstage.trans hbefore.symm)
  · intro k hk
    have hkh : k ≠ h := by
      rintro rfl
      exact hk hbefore
    rw [put_ne s hkh]

/-- program が開く番号は、handler の持つ番号ではない。 -/
theorem SocketInv.hostOpened (hinv : SocketInv tr s) (hfd : fd ∉ s.openFds) :
    SocketInv tr
      { s with openFds := insert fd s.openFds, hostFds := insert fd s.hostFds } := by
  refine hinv.frame (fun _ => rfl) (fun _ _ => rfl) ?_ ?_ ?_
  · intro k _ hx
    exact Finset.mem_insert_of_mem hx
  · intro k hk hx hm
    rcases Finset.mem_insert.mp hm with heq | hm
    · exact hfd (heq ▸ hinv.isOpen k hk)
    · exact hx hm
  · exact Finset.insert_subset_insert _ hinv.hostOpen

/-- program が閉じるのは、自分の開いた番号である。 -/
theorem SocketInv.hostClosed (hinv : SocketInv tr s) (hfd : fd ∈ s.hostFds) :
    SocketInv tr { s with openFds := s.openFds.erase fd, hostFds := s.hostFds.erase fd } := by
  refine hinv.frame (fun _ => rfl) (fun _ _ => rfl) ?_ ?_ ?_
  · intro k hk hx
    refine Finset.mem_erase.mpr ⟨?_, hx⟩
    rintro heq
    exact hinv.notHost k hk (heq ▸ hfd)
  · intro k _ hx hm
    exact hx (Finset.mem_of_mem_erase hm)
  · exact Finset.erase_subset_erase _ hinv.hostOpen

/-- `socket()` が失敗しない一 step は、不変量を保つ。 -/
theorem socketInv_step (hinv : SocketInv tr s) (hok : ∀ h, act ≠ .socket h none)
    (hs : socketStep s act = some s') : SocketInv (tr ++ socketEvents s act) s' := by
  cases act with
  | create h =>
    obtain ⟨hp, heq⟩ := Option.ite_none_right_eq_some.mp hs
    obtain rfl := Option.some.inj heq
    show SocketInv (tr ++ []) _
    rw [List.append_nil]
    refine hinv.created ?_ rfl
    rw [hp]
    rfl
  | socket h fd =>
    obtain ⟨hp, heq⟩ := Option.ite_none_right_eq_some.mp hs
    cases fd with
    | none => exact absurd rfl (hok h)
    | some fd =>
      obtain ⟨hfd, heq⟩ := Option.ite_none_left_eq_some.mp heq
      obtain rfl := Option.some.inj heq
      refine hinv.opened ?_ hfd ?_ ?_ (fun _ hk => put_ne s hk _) rfl rfl
      · rw [hp]
        rfl
      · show ((s.put h _).handlers h).phase.stage = _
        rw [put_self]
        rfl
      · show ((s.put h _).handlers h).sockd = fd
        rw [put_self]
  | close h =>
    obtain ⟨hp, heq⟩ := Option.ite_none_right_eq_some.mp hs
    obtain rfl := Option.some.inj heq
    refine hinv.close (stage_closing hp) ?_ (put_sockd s rfl) (fun _ hk => put_ne s hk _) rfl rfl
    show ((s.put h _).handlers h).phase.stage = _
    rw [put_self]
    rfl
  | step h a =>
    obtain ⟨hd', hstep, rfl⟩ := Option.map_eq_some_iff.mp hs
    have hput := hinv.put_step hstep
    cases a with
    | send encrypted =>
      unfold socketEvents
      dsimp only
      split
      · obtain ⟨hown, hown', hsock⟩ := step_keeps hstep
        have huse := hput.use (h := h) (by rwa [put_self])
        rwa [put_self, hsock] at huse
      · rwa [List.append_nil]
    | _ =>
      show SocketInv (tr ++ []) _
      rwa [List.append_nil]
  | hostOpen fd =>
    obtain ⟨hfd, heq⟩ := Option.ite_none_left_eq_some.mp hs
    obtain rfl := Option.some.inj heq
    show SocketInv (tr ++ []) _
    rw [List.append_nil]
    exact hinv.hostOpened hfd
  | hostClose fd =>
    obtain ⟨hfd, heq⟩ := Option.ite_none_right_eq_some.mp hs
    obtain rfl := Option.some.inj heq
    show SocketInv (tr ++ []) _
    rw [List.append_nil]
    exact hinv.hostClosed hfd

/-! ## 失敗した socket -/

theorem socketStep_socket {fd : Option Nat} (hs : socketStep s (.socket h fd) = some s') :
    (s.handlers h).phase.stage = .before ∧ (s'.handlers h).phase.stage = .owning := by
  obtain ⟨hp, heq⟩ := Option.ite_none_right_eq_some.mp hs
  refine ⟨by rw [hp]; rfl, ?_⟩
  cases fd with
  | none =>
    obtain rfl := Option.some.inj heq
    rw [put_self]
    rfl
  | some fd =>
    obtain ⟨-, heq⟩ := Option.ite_none_left_eq_some.mp heq
    obtain rfl := Option.some.inj heq
    show ((s.put h _).handlers h).phase.stage = _
    rw [put_self]
    rfl

/-- handler の段階を進めるのは、その handler の `socket` と `close` だけである。 -/
theorem socketStep_stage (hs : socketStep s act = some s') (k : Nat) :
    (s'.handlers k).phase.stage = (s.handlers k).phase.stage ∨
      (∃ fd, act = .socket k fd) ∨ act = .close k := by
  cases act with
  | create h =>
    obtain ⟨hp, heq⟩ := Option.ite_none_right_eq_some.mp hs
    obtain rfl := Option.some.inj heq
    refine Or.inl (put_stage s ?_ k)
    rw [hp]
    rfl
  | socket h fd =>
    by_cases hkh : k = h
    · exact Or.inr (Or.inl ⟨fd, by rw [hkh]⟩)
    · obtain ⟨-, heq⟩ := Option.ite_none_right_eq_some.mp hs
      refine Or.inl ?_
      cases fd with
      | none =>
        obtain rfl := Option.some.inj heq
        rw [put_ne s hkh]
      | some fd =>
        obtain ⟨-, heq⟩ := Option.ite_none_left_eq_some.mp heq
        obtain rfl := Option.some.inj heq
        show ((s.put h _).handlers k).phase.stage = _
        rw [put_ne s hkh]
  | close h =>
    by_cases hkh : k = h
    · exact Or.inr (Or.inr (by rw [hkh]))
    · obtain ⟨-, heq⟩ := Option.ite_none_right_eq_some.mp hs
      obtain rfl := Option.some.inj heq
      refine Or.inl ?_
      show ((s.put h _).handlers k).phase.stage = _
      rw [put_ne s hkh]
  | step h a =>
    obtain ⟨hd', hstep, rfl⟩ := Option.map_eq_some_iff.mp hs
    obtain ⟨hown, hown', -⟩ := step_keeps hstep
    exact Or.inl (put_stage s (hown'.trans hown.symm) k)
  | hostOpen fd =>
    obtain ⟨-, heq⟩ := Option.ite_none_left_eq_some.mp hs
    obtain rfl := Option.some.inj heq
    exact Or.inl rfl
  | hostClose fd =>
    obtain ⟨-, heq⟩ := Option.ite_none_right_eq_some.mp hs
    obtain rfl := Option.some.inj heq
    exact Or.inl rfl

theorem acquire_mem_events {x : Nat} (hm : .acquire h x ∈ socketEvents s act) :
    act = .socket h (some x) := by
  unfold socketEvents at hm
  split at hm
  · obtain ⟨rfl, rfl⟩ : h = _ ∧ x = _ := by simpa using hm
    rfl
  · split at hm <;> simp at hm
  · simp at hm
  · simp at hm

theorem socketStep_close (hs : socketStep s (.close h) = some s') :
    (s'.handlers h).phase.stage = .after := by
  obtain ⟨-, heq⟩ := Option.ite_none_right_eq_some.mp hs
  obtain rfl := Option.some.inj heq
  show ((s.put h _).handlers h).phase.stage = _
  rw [put_self]
  rfl

/-- descriptor は、開いた後の handler のものしか記録に無い。 -/
theorem acquire_stage {P : SocketSystem → SocketAction → Prop} {host : Finset Nat}
    {acts : List SocketAction} (hP : Along socketStep P (socketInitial host) acts)
    (hrun : run socketStep (socketInitial host) acts = some s) :
    ∀ h x, .acquire h x ∈ emitted socketStep socketEvents (socketInitial host) acts →
      (s.handlers h).phase.stage ≠ .before := by
  refine emitted_invariant socketEvents
    (fun tr s => ∀ h x, .acquire h x ∈ tr → (s.handlers h).phase.stage ≠ .before) []
    ?_ (by simp) hP hrun
  intro tr s act s' hJ _ hs h x hm
  rcases List.mem_append.mp hm with hm | hm
  · have hne := hJ h x hm
    rcases socketStep_stage hs h with hsame | ⟨fd, rfl⟩ | rfl
    · rwa [hsame]
    · exact absurd (socketStep_socket hs).1 hne
    · rw [socketStep_close hs]
      simp
  · obtain rfl := acquire_mem_events hm
    rw [(socketStep_socket hs).2]
    simp

/-- `socket()` に失敗した handler は、何も開いていないのに、解放されるときに `close` を呼ぶ。 -/
theorem failed_socket {host : Finset Nat} {acts : List SocketAction}
    (hrun : run socketStep (socketInitial host) acts = some s) (hfail : .socket h none ∈ acts) :
    (s.handlers h).phase.stage ≠ .before ∧
      (∀ x, .acquire h x ∉ emitted socketStep socketEvents (socketInitial host) acts) ∧
      ((s.handlers h).phase.stage = .after →
        ∃ x, .release h x ∈ emitted socketStep socketEvents (socketInitial host) acts) := by
  obtain ⟨as, bs, rfl⟩ := List.append_of_mem hfail
  obtain ⟨u, hu, hrest⟩ := run_append_eq_some.mp hrun
  obtain ⟨v, hv, hrest⟩ := run_cons_eq_some.mp hrest
  have halong : ∀ {s : SocketSystem} {as : List SocketAction},
      Along socketStep (fun _ _ => True) s as := along_of_forall fun _ _ => trivial
  have hfresh : ∀ x, .acquire h x ∉ emitted socketStep socketEvents (socketInitial host) as :=
    fun x hm => acquire_stage halong hu h x hm (socketStep_socket hv).1
  rw [emitted_append hu, emitted_cons hv]
  refine emitted_invariant socketEvents
    (fun tr s => (s.handlers h).phase.stage ≠ .before ∧ (∀ x, .acquire h x ∉ tr) ∧
      ((s.handlers h).phase.stage = .after → ∃ x, .release h x ∈ tr))
    (emitted socketStep socketEvents (socketInitial host) as) ?_ ?_ halong hrest
  · rintro tr s act s' ⟨hne, hno, hrel⟩ - hs
    refine ⟨?_, ?_, ?_⟩
    · rcases socketStep_stage hs h with hsame | ⟨fd, rfl⟩ | rfl
      · rwa [hsame]
      · exact absurd (socketStep_socket hs).1 hne
      · rw [socketStep_close hs]
        simp
    · intro x hm
      rcases List.mem_append.mp hm with hm | hm
      · exact hno x hm
      · obtain rfl := acquire_mem_events hm
        exact hne (socketStep_socket hs).1
    · intro hafter
      rcases socketStep_stage hs h with hsame | ⟨fd, rfl⟩ | rfl
      · obtain ⟨x, hm⟩ := hrel (hsame ▸ hafter)
        exact ⟨x, List.mem_append_left _ hm⟩
      · exact absurd (socketStep_socket hs).1 hne
      · exact ⟨_, List.mem_append_right _ (List.mem_singleton.mpr rfl)⟩
  · rw [(socketStep_socket hv).2]
    exact ⟨by simp, hfresh, fun h => nomatch h⟩

/-! ## 条件 -/

/--
どの `socket()` も成功する実行では、handler は自分の socket だけを使い、一度だけ閉じる。
作られた handler がすべて解放された実行では、逆も成り立つ。
-/
theorem sockets_owned_iff {host : Finset Nat} {acts : List SocketAction}
    (hrun : run socketStep (socketInitial host) acts = some s) :
    (AllOpened acts →
      OwnedSockets (emitted socketStep socketEvents (socketInitial host) acts) s) ∧
    ((∀ h, (s.handlers h).phase = .absent ∨ (s.handlers h).phase = .gone) →
      OwnedSockets (emitted socketStep socketEvents (socketInitial host) acts) s →
      AllOpened acts) := by
  refine ⟨?_, ?_⟩
  · intro hall
    have hok : Along socketStep (fun _ act => ∀ h, act ≠ .socket h none) (socketInitial host)
        acts := along_of_forall_mem fun act hm h he => hall h (he ▸ hm)
    have hinv := emitted_invariant socketEvents SocketInv []
      (fun _ _ _ _ hJ hok hs => socketInv_step hJ hok hs) (socketInv_initial host) hok hrun
    exact hinv.owned
  · intro hgone howned h hfail
    obtain ⟨hne, hno, hrel⟩ := failed_socket hrun hfail
    rcases hgone h with habsent | hgone
    · exact hne (by rw [habsent]; rfl)
    · obtain ⟨x, hm⟩ := hrel (stage_after.mpr hgone)
      obtain ⟨a, b, heq⟩ := List.append_of_mem hm
      have hholds : Owns a h x := howned.1 a _ b heq
      exact hno x (heq ▸ List.mem_append_left _ hholds.mem)

/-- `socket()` の結果を `fd` として、handler を一つ作り、一件を送って解放する動作。 -/
def oneSocketRun (fd : Option Nat) : List SocketAction :=
  [.create 0, .socket 0 fd, .step 0 (.allocRing true), .step 0 (.createThread true),
    .step 0 (.attach { sinAddr := 0x0100007f, sinPort := 9000 }), .step 0 (.log true),
    .step 0 (.peek true), .step 0 (.send true), .step 0 .consume, .step 0 .destroy,
    .step 0 .exit, .step 0 .join, .close 0]

theorem sockets_owned_iff_one :
    ∃ s, run socketStep (socketInitial {0, 1, 2}) (oneSocketRun (some 3)) = some s ∧
      OwnedSockets
        (emitted socketStep socketEvents (socketInitial {0, 1, 2}) (oneSocketRun (some 3))) s := by
  obtain ⟨s, hs⟩ : ∃ s, run socketStep (socketInitial {0, 1, 2}) (oneSocketRun (some 3)) = some s :=
    ⟨_, rfl⟩
  refine ⟨s, hs, (sockets_owned_iff hs).1 ?_⟩
  intro h hm
  simp [oneSocketRun] at hm

/-- `socket()` が失敗すると、program の descriptor 0 に送って、それを閉じる。 -/
theorem failedSocket_uses_stdin :
    ∃ s, run socketStep (socketInitial {0, 1, 2}) (oneSocketRun none) = some s ∧
      s.openFds = {1, 2} ∧
      ¬ OwnedSockets
        (emitted socketStep socketEvents (socketInitial {0, 1, 2}) (oneSocketRun none)) s := by
  refine ⟨_, rfl, by decide, ?_⟩
  rintro ⟨hdisc, -⟩
  have huse : Owns [] 0 0 := hdisc [] (.use 0 0) [.release 0 0] rfl
  exact absurd huse.mem (by simp)

end Logmoko
