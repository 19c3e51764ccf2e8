import Logmoko.File.Batch
import Logmoko.Transport.Sender

/-!
# 送信の順と過不足

consumer は record を取り出した順に、一つの record については listener を一覧の順に送る。
設定の動作がどこに入っても、次が成り立つ。

* `SlotInv` — 送っている途中の行は、最後に整形した空でない行である
* `PlaceInv` — 送信は（record、listener）の順に一度ずつで、まだの組は後から来る
* `ContentInv` — datagram は、その record の行をそのまま、または暗号化して運ぶ
* `CompleteInv` — 順番の過ぎた組のうち、listener が間に合っていたものは、みな送られている
* `LateInv` — 加わる前に送り終えていた record は、その listener には送られない
* `FormatInv` — 行は record と書式と時刻だけで決まる
-/

namespace Logmoko

open Transition

variable {σ : Type} {g : Gcm} {strftime : Int → CStr} {s s' : SenderState σ} {a : SenderAction σ}

/-! ## 一つの slot -/

/-- 取り出したが、まだ整形していない request。 -/
def SendPc.pending : SendPc → List (Int × LogRequest)
  | .format now req => [(now, req)]
  | _ => []

/-- 取り出した slot を送り終えていない位置。 -/
def SendPc.inSlot : SendPc → Bool
  | .format _ _ | .loadPsk _ | .sending _ _ _ => true
  | .peek | .consume => false

/-- 送っている途中の行の長さ。 -/
def SendPc.lineLength : SendPc → Option Nat
  | .loadPsk n | .sending n _ _ => some n
  | _ => none

/-- 取り出した record、整形した行、listener の一覧の間の関係。 -/
structure SlotInv (s : SenderState σ) : Prop where
  peeked : s.hist.peeked = s.hist.drained.map (fun d => (d.now, d.req)) ++ s.pc.pending
  length : s.hist.outputs.length = s.hist.drained.length
  since : s.hist.since.length = s.servers.length
  slot : s.pc.inSlot = true → 0 < s.hist.peeked.length
  cursor : s.pc.cursor ≤ s.servers.length
  line : ∀ n, s.pc.lineLength = some n →
    0 < n ∧ s.hist.outputs[s.hist.peeked.length - 1]? = some (Buffer.read s.out 0 n)

/-- 整形した後の行の個数は、取り出した record の個数に等しい。 -/
theorem SlotInv.length_outputs (h : SlotInv s) (hp : s.pc.pending = []) :
    s.hist.outputs.length = s.hist.peeked.length := by
  have hlen := congrArg List.length h.peeked
  rw [hp, List.append_nil, List.length_map] at hlen
  rw [h.length, hlen]

theorem SlotInv.formatted (h : SlotInv s) {now : Int} {req : LogRequest}
    (hpc : s.pc = .format now req) : SlotInv (s.formatted strftime now req) := by
  have hpeeked := h.peeked
  have hslot := h.slot (by rw [hpc]; rfl)
  have hlen : s.hist.outputs.length = s.hist.peeked.length - 1 := by
    rw [hpeeked, hpc, h.length]
    simp [SendPc.pending]
  rw [hpc] at hpeeked
  unfold SenderState.formatted
  dsimp only
  set p := lmkFormatLogLine strftime s.formatFn s.cache now s.out 0 outBufSize req
  refine ⟨?_, ?_, h.since, fun _ => hslot, ?_, ?_⟩
  · split <;> simpa [SendPc.pending] using hpeeked
  · simp [h.length]
  · split <;> exact Nat.zero_le _
  · intro n hn
    split at hn
    · next hpos =>
      obtain rfl : p.2.1.toNat = n := Option.some.inj hn
      refine ⟨by omega, ?_⟩
      rw [← hlen, List.getElem?_append_right le_rfl, Nat.sub_self]
      rfl
    · cases hn

theorem SlotInv.attempt (h : SlotInv s) {n cursor : Nat} {usePsk : Bool} {server : σ}
    {key packet : Option (List UInt8)} {enc : Nat → UInt8} (hpc : s.pc = .sending n usePsk cursor)
    (hc : s.servers[cursor]? = some server) :
    SlotInv { s.attempt n usePsk cursor server key packet with enc } := by
  have hpeeked := h.peeked
  rw [hpc] at hpeeked
  refine ⟨hpeeked, h.length, h.since, fun _ => h.slot (by rw [hpc]; rfl), ?_, ?_⟩
  · exact (List.getElem?_eq_some_iff.mp hc).1
  · intro m hm
    exact h.line m (by rw [hpc]; exact hm)

theorem SlotInv.step (h : SlotInv s) (hs : senderStep g strftime s a = some s') : SlotInv s' := by
  have hpeeked := h.peeked
  cases senderStep_move hs with
  | slot hpc =>
    rw [hpc] at hpeeked
    refine ⟨?_, h.length, h.since, ?_, Nat.zero_le _, by simp [SendPc.lineLength]⟩
    · simpa [SendPc.pending] using hpeeked
    · simp
  | format hpc => exact h.formatted hpc
  | loadPsk hpc =>
    rw [hpc] at hpeeked
    refine ⟨hpeeked, h.length, h.since, fun _ => h.slot (by rw [hpc]; rfl), Nat.zero_le _, ?_⟩
    intro n hn
    exact h.line n (by rw [hpc]; exact hn)
  | endOfList hpc | consume hpc =>
    rw [hpc] at hpeeked
    exact ⟨hpeeked, h.length, h.since, by simp [SendPc.inSlot], Nat.zero_le _,
      by simp [SendPc.lineLength]⟩
  | encrypted hpc hc => exact h.attempt hpc hc
  | encryptFailed hpc hc | plain hpc hc => exact h.attempt hpc hc
  | attachLogListener =>
    refine ⟨hpeeked, h.length, by simp [h.since], h.slot, ?_, h.line⟩
    have := h.cursor
    simp only [List.length_append, List.length_singleton]
    omega
  | setSocketPsk | enablePsk | setFormat => exact ⟨hpeeked, h.length, h.since, h.slot, h.cursor,
      h.line⟩

/-! ## 順番 -/

/-- 先の送信である。record の順、一つの record の中では listener の順に並べる。 -/
def Attempt.Before (x y : Attempt σ) : Prop :=
  x.index < y.index ∨ x.index = y.index ∧ x.listener < y.listener

/-- 番号 `i` の record を番号 `j` の listener に送る順番は、もう過ぎている。 -/
def SenderState.Past (s : SenderState σ) (i j : Nat) : Prop :=
  i < s.nextIndex ∨ i = s.nextIndex ∧ j < s.pc.cursor

/-- 送信は順に一度ずつで、順番の過ぎたものだけである。 -/
structure PlaceInv (s : SenderState σ) : Prop where
  sorted : s.hist.attempts.Pairwise Attempt.Before
  past : ∀ x ∈ s.hist.attempts, s.Past x.index x.listener

theorem nextIndex_of_inSlot (h : s.pc.inSlot = true) :
    s.nextIndex = s.hist.peeked.length - 1 := by
  unfold SenderState.nextIndex
  cases hpc : s.pc with
  | peek | consume =>
    rw [hpc] at h
    exact absurd h Bool.false_ne_true
  | format | loadPsk | sending => rfl

theorem nextIndex_of_not_inSlot (h : s.pc.inSlot = false) :
    s.nextIndex = s.hist.peeked.length := by
  unfold SenderState.nextIndex
  cases hpc : s.pc with
  | peek | consume => rfl
  | format | loadPsk | sending =>
    rw [hpc] at h
    exact absurd h.symm Bool.false_ne_true

/-- 順番は戻らない。 -/
theorem past_mono (h : SlotInv s) (hs : senderStep g strftime s a = some s') {i j : Nat}
    (hp : s.Past i j) : s'.Past i j := by
  unfold SenderState.Past at hp ⊢
  cases senderStep_move hs with
  | slot hpc =>
    rw [nextIndex_of_not_inSlot (by rw [hpc]; rfl), hpc] at hp
    rw [nextIndex_of_inSlot rfl]
    simpa [SendPc.cursor] using hp
  | @format _ _ now req hpc =>
    have hpos := h.slot (by rw [hpc]; rfl)
    rw [nextIndex_of_inSlot (by rw [hpc]; rfl), hpc] at hp
    simp only [SendPc.cursor, Nat.not_lt_zero, and_false, or_false] at hp
    left
    unfold SenderState.nextIndex SenderState.formatted
    dsimp only
    split
    all_goals
      have hlt : i < s.hist.peeked.length - 1 := hp
      omega
  | loadPsk hpc =>
    rw [nextIndex_of_inSlot (by rw [hpc]; rfl), hpc] at hp
    rw [nextIndex_of_inSlot rfl]
    exact hp
  | endOfList hpc hc =>
    have hpos := h.slot (by rw [hpc]; rfl)
    rw [nextIndex_of_inSlot (by rw [hpc]; rfl), hpc] at hp
    rw [nextIndex_of_not_inSlot rfl]
    left
    simp only [SendPc.cursor] at hp
    dsimp only
    omega
  | encrypted hpc hc | encryptFailed hpc hc | plain hpc hc =>
    rw [nextIndex_of_inSlot (by rw [hpc]; rfl), hpc] at hp
    rw [nextIndex_of_inSlot rfl]
    simp only [SendPc.cursor, SenderState.attempt] at hp ⊢
    omega
  | consume hpc =>
    rw [nextIndex_of_not_inSlot (by rw [hpc]; rfl), hpc] at hp
    rw [nextIndex_of_not_inSlot rfl]
    exact hp
  | attachLogListener | setSocketPsk | enablePsk | setFormat => exact hp

theorem PlaceInv.attempt (h : PlaceInv s) {n cursor : Nat} {usePsk : Bool}
    {server : σ} {key packet : Option (List UInt8)} {enc : Nat → UInt8}
    (hpc : s.pc = .sending n usePsk cursor) :
    PlaceInv { s.attempt n usePsk cursor server key packet with enc } := by
  have hnext : s.nextIndex = s.hist.peeked.length - 1 := nextIndex_of_inSlot (by rw [hpc]; rfl)
  have hcursor : s.pc.cursor = cursor := by rw [hpc]; rfl
  refine ⟨?_, ?_⟩
  · refine List.pairwise_append.mpr ⟨h.sorted, List.pairwise_singleton _ _, ?_⟩
    intro x hx y hy
    obtain rfl := List.mem_singleton.mp hy
    have hpast := h.past x hx
    rwa [SenderState.Past, hnext, hcursor] at hpast
  · intro x hx
    show x.index < s.hist.peeked.length - 1 ∨
      x.index = s.hist.peeked.length - 1 ∧ x.listener < cursor + 1
    rcases List.mem_append.mp hx with hx | hx
    · have hpast := h.past x hx
      rw [SenderState.Past, hnext, hcursor] at hpast
      omega
    · obtain rfl := List.mem_singleton.mp hx
      exact Or.inr ⟨rfl, Nat.lt_succ_self _⟩

theorem PlaceInv.step (hslot : SlotInv s) (h : PlaceInv s)
    (hs : senderStep g strftime s a = some s') : PlaceInv s' := by
  have hmono := fun x hx => past_mono hslot hs (h.past x hx)
  cases senderStep_move hs with
  | encrypted hpc => exact h.attempt hpc
  | encryptFailed hpc | plain hpc => exact h.attempt hpc
  | _ => exact ⟨h.sorted, hmono⟩

/-! ## 送った内容 -/

/-- 行 `line` をそのまま、または鍵 `key` で暗号化して送った。暗号化に失敗すると何も送らない。 -/
def Attempt.Sends (g : Gcm) (x : Attempt σ) (line : List UInt8) : Prop :=
  match x.key with
  | none => x.packet = some line
  | some key => ∀ p, x.packet = some p → ∃ iv : Iv, p = packetOf g key iv.bytes line

/-- どの送信も、その record の空でない行を、その番号の listener に送ったものである。 -/
def ContentInv (g : Gcm) (s : SenderState σ) : Prop :=
  ∀ x ∈ s.hist.attempts, s.servers[x.listener]? = some x.server ∧
    ∃ line, s.hist.outputs[x.index]? = some line ∧ line ≠ [] ∧ x.Sends g line

theorem getElem?_stays {α : Type*} {xs ys : List α} (h : xs <+: ys) {i : Nat} {x : α}
    (hx : xs[i]? = some x) : ys[i]? = some x := by
  obtain ⟨rest, rfl⟩ := h
  rw [List.getElem?_append_left (List.getElem?_eq_some_iff.mp hx).1, hx]

/-- 行の列、listener の一覧、送信の控えは、伸びるだけである。 -/
structure Grows (s s' : SenderState σ) : Prop where
  outputs : s.hist.outputs <+: s'.hist.outputs
  servers : s.servers <+: s'.servers
  since : s.hist.since <+: s'.hist.since
  attempts : s.hist.attempts <+: s'.hist.attempts

theorem Grows.refl (s : SenderState σ) : Grows s s :=
  ⟨List.prefix_rfl, List.prefix_rfl, List.prefix_rfl, List.prefix_rfl⟩

theorem Grows.trans {u : SenderState σ} (h : Grows s s') (h' : Grows s' u) : Grows s u :=
  ⟨h.outputs.trans h'.outputs, h.servers.trans h'.servers, h.since.trans h'.since,
    h.attempts.trans h'.attempts⟩

theorem SenderMove.grows (h : SenderMove g strftime s a s') : Grows s s' := by
  cases h with
  | format => exact ⟨List.prefix_append _ _, List.prefix_rfl, List.prefix_rfl, List.prefix_rfl⟩
  | attachLogListener =>
    exact ⟨List.prefix_rfl, List.prefix_append _ _, List.prefix_append _ _, List.prefix_rfl⟩
  | encrypted | encryptFailed | plain =>
    exact ⟨List.prefix_rfl, List.prefix_rfl, List.prefix_rfl, List.prefix_append _ _⟩
  | slot | loadPsk | endOfList | consume | setSocketPsk | enablePsk | setFormat =>
    exact ⟨List.prefix_rfl, List.prefix_rfl, List.prefix_rfl, List.prefix_rfl⟩

theorem grows_run {as : List (SenderAction σ)} (h : run (senderStep g strftime) s as = some s') :
    Grows s s' :=
  Reachable.invariant (fun _ _ _ h hs => h.trans (senderStep_move hs).grows) (Grows.refl s)
    ⟨as, h⟩

theorem ContentInv.attempt (hslot : SlotInv s) (h : ContentInv g s) {n cursor : Nat}
    {usePsk : Bool} {server : σ} {key packet : Option (List UInt8)} {enc : Nat → UInt8}
    (hpc : s.pc = .sending n usePsk cursor) (hc : s.servers[cursor]? = some server)
    (hsends : ∀ i, Attempt.Sends g ⟨i, cursor, server, key, packet⟩ (Buffer.read s.out 0 n)) :
    ContentInv g { s.attempt n usePsk cursor server key packet with enc } := by
  intro x hx
  rcases List.mem_append.mp hx with hx | hx
  · exact h x hx
  · obtain rfl := List.mem_singleton.mp hx
    obtain ⟨hn, hline⟩ := hslot.line n (by rw [hpc]; rfl)
    refine ⟨hc, _, hline, ?_, hsends _⟩
    intro hnil
    have := congrArg List.length hnil
    rw [Buffer.length_read, List.length_nil] at this
    omega

theorem ContentInv.step (hslot : SlotInv s) (h : ContentInv g s)
    (hs : senderStep g strftime s a = some s') : ContentInv g s' := by
  have hgrows := (senderStep_move hs).grows
  have hold : ∀ x ∈ s.hist.attempts, s'.servers[x.listener]? = some x.server ∧
      ∃ line, s'.hist.outputs[x.index]? = some line ∧ line ≠ [] ∧ x.Sends g line := by
    intro x hx
    obtain ⟨hserver, line, hline, hne, hsends⟩ := h x hx
    exact ⟨getElem?_stays hgrows.servers hserver, line,
      getElem?_stays hgrows.outputs hline, hne, hsends⟩
  cases senderStep_move hs with
  | @encrypted _ _ _ _ _ iv hpc hc =>
    refine h.attempt hslot hpc hc ?_
    intro i p hp
    exact ⟨iv, (Option.some.inj hp).symm⟩
  | encryptFailed hpc hc =>
    refine h.attempt hslot hpc hc ?_
    intro i p hp
    cases hp
  | plain hpc hc => exact h.attempt hslot hpc hc fun _ => rfl
  | _ => exact hold

/-! ## 過不足 -/

/-- 順番の過ぎた組のうち、行が空でなく、listener が間に合っていたものは、みな送られている。 -/
def CompleteInv (s : SenderState σ) : Prop :=
  ∀ i j t line, s.Past i j → s.hist.since[j]? = some t → t ≤ i →
    s.hist.outputs[i]? = some line → line ≠ [] →
    ∃ x ∈ s.hist.attempts, x.index = i ∧ x.listener = j

theorem CompleteInv.attempt (h : CompleteInv s) {n cursor : Nat} {usePsk : Bool} {server : σ}
    {key packet : Option (List UInt8)} {enc : Nat → UInt8}
    (hpc : s.pc = .sending n usePsk cursor) :
    CompleteInv { s.attempt n usePsk cursor server key packet with enc } := by
  have hnext : s.nextIndex = s.hist.peeked.length - 1 := nextIndex_of_inSlot (by rw [hpc]; rfl)
  have hcursor : s.pc.cursor = cursor := by rw [hpc]; rfl
  intro i j t line hpast hsince ht hline hne
  have hpast' : i < s.hist.peeked.length - 1 ∨ i = s.hist.peeked.length - 1 ∧ j < cursor + 1 :=
    hpast
  by_cases hnew : i = s.hist.peeked.length - 1 ∧ j = cursor
  · obtain ⟨rfl, rfl⟩ := hnew
    exact ⟨_, List.mem_append_right _ (List.mem_singleton_self _), rfl, rfl⟩
  · have hold : s.Past i j := by
      rw [SenderState.Past, hnext, hcursor]
      omega
    obtain ⟨x, hx, hplace⟩ := h i j t line hold hsince ht hline hne
    exact ⟨x, List.mem_append_left _ hx, hplace⟩

/-- 整形の step は、送り始めるか、空の行を残して slot を終える。 -/
theorem formatted_pc (strftime : Int → CStr) (s : SenderState σ) (now : Int) (req : LogRequest) :
    (∃ n, (s.formatted strftime now req).pc = .loadPsk n) ∨
      (s.formatted strftime now req).pc = .consume ∧
        (s.formatted strftime now req).hist.outputs = s.hist.outputs ++ [[]] := by
  unfold SenderState.formatted
  dsimp only
  set p := lmkFormatLogLine strftime s.formatFn s.cache now s.out 0 outBufSize req
  by_cases hn : p.2.1 > 0
  · rw [if_pos hn]
    exact Or.inl ⟨_, rfl⟩
  · rw [if_neg hn]
    have hzero : p.2.1.toNat = 0 := by omega
    rw [hzero]
    exact Or.inr ⟨rfl, rfl⟩

theorem CompleteInv.formatted (hslot : SlotInv s) (h : CompleteInv s) {now : Int}
    {req : LogRequest} (hpc : s.pc = .format now req) :
    CompleteInv (s.formatted strftime now req) := by
  have hpos := hslot.slot (by rw [hpc]; rfl)
  have hnext : s.nextIndex = s.hist.peeked.length - 1 := nextIndex_of_inSlot (by rw [hpc]; rfl)
  have hlen : s.hist.outputs.length = s.hist.peeked.length - 1 := by
    rw [hslot.peeked, hpc, hslot.length]
    simp [SendPc.pending]
  intro i j t line hpast hsince ht hline hne
  have hlt : i < s.hist.outputs.length := by
    unfold SenderState.Past at hpast
    rcases formatted_pc strftime s now req with ⟨n, hload⟩ | ⟨hconsume, houtputs⟩
    · rw [nextIndex_of_inSlot (by rw [hload]; rfl), hload] at hpast
      have hlt : i < s.hist.peeked.length - 1 := hpast.resolve_right fun h => Nat.not_lt_zero _ h.2
      omega
    · rw [nextIndex_of_not_inSlot (by rw [hconsume]; rfl), hconsume] at hpast
      have hle : i < s.hist.peeked.length := hpast.resolve_right fun h => Nat.not_lt_zero _ h.2
      -- 空の行は、送られないまま過ぎる
      have hlast : i ≠ s.hist.outputs.length := by
        rintro rfl
        rw [houtputs, List.getElem?_append_right le_rfl, Nat.sub_self] at hline
        exact hne (Option.some.inj hline).symm
      omega
  refine h i j t line (Or.inl (by omega)) hsince ht ?_ hne
  have hline' : (s.hist.outputs ++ [_])[i]? = some line := hline
  rwa [List.getElem?_append_left hlt] at hline'

theorem CompleteInv.step (hslot : SlotInv s) (h : CompleteInv s)
    (hs : senderStep g strftime s a = some s') : CompleteInv s' := by
  cases senderStep_move hs with
  | format hpc => exact h.formatted hslot hpc
  | encrypted hpc => exact h.attempt hpc
  | encryptFailed hpc | plain hpc => exact h.attempt hpc
  | slot hpc =>
    intro i j t line hpast hsince ht hline hne
    refine h i j t line ?_ hsince ht hline hne
    have hnext : s.nextIndex = s.hist.peeked.length :=
      nextIndex_of_not_inSlot (by rw [hpc]; rfl)
    unfold SenderState.Past at hpast ⊢
    rw [nextIndex_of_inSlot rfl] at hpast
    rw [hnext, hpc]
    simpa [SendPc.cursor] using hpast
  | loadPsk hpc =>
    intro i j t line hpast hsince ht hline hne
    refine h i j t line ?_ hsince ht hline hne
    unfold SenderState.Past at hpast ⊢
    rw [nextIndex_of_inSlot rfl] at hpast
    rw [nextIndex_of_inSlot (by rw [hpc]; rfl), hpc]
    exact hpast
  | consume hpc =>
    intro i j t line hpast hsince ht hline hne
    refine h i j t line ?_ hsince ht hline hne
    unfold SenderState.Past at hpast ⊢
    rw [nextIndex_of_not_inSlot rfl] at hpast
    rw [nextIndex_of_not_inSlot (by rw [hpc]; rfl), hpc]
    exact hpast
  | @endOfList _ _ n usePsk cursor hpc hc =>
    intro i j t line hpast hsince ht hline hne
    refine h i j t line ?_ hsince ht hline hne
    have hj : j < s.hist.since.length := (List.getElem?_eq_some_iff.mp hsince).1
    have hcursor : s.servers.length ≤ cursor := List.getElem?_eq_none_iff.mp hc
    have hsl := hslot.since
    unfold SenderState.Past at hpast ⊢
    rw [nextIndex_of_not_inSlot rfl] at hpast
    rw [nextIndex_of_inSlot (by rw [hpc]; rfl), hpc]
    simp only [SendPc.cursor, Nat.not_lt_zero, and_false, or_false] at hpast ⊢
    omega
  | attachLogListener =>
    intro i j t line hpast hsince ht hline hne
    have hpast' : s.Past i j := hpast
    by_cases hj : j < s.hist.since.length
    · rw [List.getElem?_append_left hj] at hsince
      exact h i j t line hpast' hsince ht hline hne
    · -- 加わったばかりの listener の順番は、まだ来ていない
      have hj' : j = s.hist.since.length := by
        have := (List.getElem?_eq_some_iff.mp hsince).1
        simp only [List.length_append, List.length_singleton] at this
        omega
      rw [hj', List.getElem?_append_right le_rfl, Nat.sub_self] at hsince
      obtain rfl : s.nextIndex = t := Option.some.inj hsince
      have hcursor := hslot.cursor
      have hsl := hslot.since
      unfold SenderState.Past at hpast'
      omega
  | setSocketPsk | enablePsk | setFormat => exact h

/-! ## 加わる前の record -/

/-- どの listener にも、加わったときに順番の来ていた record からが送られる。 -/
structure LateInv (s : SenderState σ) : Prop where
  since : ∀ t ∈ s.hist.since, t ≤ s.nextIndex
  attempts : ∀ x ∈ s.hist.attempts, ∀ t, s.hist.since[x.listener]? = some t → t ≤ x.index

/-- 次の record の番号は減らない。 -/
theorem nextIndex_le (hslot : SlotInv s) (hs : senderStep g strftime s a = some s') :
    s.nextIndex ≤ s'.nextIndex := by
  cases hn : s.nextIndex with
  | zero => exact Nat.zero_le _
  | succ i =>
    have hpast : s'.Past i s'.pc.cursor := past_mono hslot hs (Or.inl (by omega))
    exact hpast.resolve_right fun h => Nat.lt_irrefl _ h.2

theorem LateInv.attempt (h : LateInv s) {n cursor : Nat} {usePsk : Bool} {server : σ}
    {key packet : Option (List UInt8)} {enc : Nat → UInt8}
    (hpc : s.pc = .sending n usePsk cursor) :
    LateInv { s.attempt n usePsk cursor server key packet with enc } := by
  have hnext : s.nextIndex = s.hist.peeked.length - 1 := nextIndex_of_inSlot (by rw [hpc]; rfl)
  have hsince : ∀ t ∈ s.hist.since, t ≤ s.hist.peeked.length - 1 := hnext ▸ h.since
  refine ⟨hsince, ?_⟩
  intro x hx t ht
  rcases List.mem_append.mp hx with hx | hx
  · exact h.attempts x hx t ht
  · obtain rfl := List.mem_singleton.mp hx
    exact hsince t (List.mem_of_getElem? ht)

theorem LateInv.step (hslot : SlotInv s) (hcontent : ContentInv g s) (h : LateInv s)
    (hs : senderStep g strftime s a = some s') : LateInv s' := by
  have hle := nextIndex_le hslot hs
  cases senderStep_move hs with
  | encrypted hpc => exact h.attempt hpc
  | encryptFailed hpc | plain hpc => exact h.attempt hpc
  | attachLogListener =>
    refine ⟨?_, ?_⟩
    · intro t ht
      rcases List.mem_append.mp ht with ht | ht
      · exact h.since t ht
      · exact (List.mem_singleton.mp ht).le
    · -- 新しい listener には、まだ何も送られていない
      intro x hx t ht
      have hlt := (List.getElem?_eq_some_iff.mp (hcontent x hx).1).1
      rw [← hslot.since] at hlt
      rw [List.getElem?_append_left hlt] at ht
      exact h.attempts x hx t ht
  | slot | format | loadPsk | endOfList | consume | setSocketPsk | enablePsk | setFormat =>
    exact ⟨fun t ht => (h.since t ht).trans hle, h.attempts⟩

/-! ## 行 -/

/-- 書式関数は、`out` の大きさの buffer に一行を過不足なく書く。 -/
def Drained.FitsOut (d : Drained) : Prop :=
  ∃ line, d.fn.Yields (formatArgs d.timestamp d.req) outBufSize line

/-- 過不足なく書かれる行は、前の行の残る buffer に整形しても、単独で整形したものと同じである。 -/
theorem Drained.FitsOut.read_eq {d : Drained} (h : d.FitsOut) {out : Nat → UInt8} :
    let p := formatLine d.fn d.timestamp out 0 outBufSize d.req
    Buffer.read p.2 0 p.1.toNat = d.line := by
  obtain ⟨line, hy⟩ := h
  have hy' : d.fn.Yields (formatArgs d.timestamp d.req) maxLineSize line := hy
  dsimp only [Drained.line]
  rw [hy.formatLine_fst, hy'.formatLine_fst, Int.toNat_natCast, hy.read_formatLine,
    hy'.read_formatLine]

/-- 行は単独で整形したものに等しく、時刻の文字列は整形した時点の秒のものである。 -/
structure FormatInv (strftime : Int → CStr) (s : SenderState σ) : Prop where
  line : List.Forall₂ (fun d o => d.FitsOut → o = d.line) s.hist.drained s.hist.outputs
  cache : s.cache.Fresh strftime
  drained : ∀ d ∈ s.hist.drained, d.now ≠ 0 → d.timestamp = strftime d.now
  stamp : Stamp strftime s.cache.text
  stamps : ∀ d ∈ s.hist.drained, Stamp strftime d.timestamp

theorem FormatInv.step (h : FormatInv strftime s) (hs : senderStep g strftime s a = some s') :
    FormatInv strftime s' := by
  cases senderStep_move hs with
  | @format _ _ now req hpc =>
    have hstamp := h.stamp.refresh now
    refine ⟨List.rel_append h.line (.cons ?_ .nil), h.cache.refresh now, ?_, hstamp, ?_⟩
    · exact fun hfits => hfits.read_eq
    · intro d hd hn
      rcases List.mem_append.mp hd with hd | hd
      · exact h.drained d hd hn
      · obtain rfl := List.mem_singleton.mp hd
        exact h.cache.refresh_text hn
    · intro d hd
      rcases List.mem_append.mp hd with hd | hd
      · exact h.stamps d hd
      · obtain rfl := List.mem_singleton.mp hd
        exact hstamp
  | _ => exact ⟨h.line, h.cache, h.drained, h.stamp, h.stamps⟩

/-! ## 実行全体 -/

/-- 送信の順・内容・過不足についての不変量。どの実行でも成り立つ。 -/
structure SenderInv (g : Gcm) (strftime : Int → CStr) (s : SenderState σ) : Prop where
  slot : SlotInv s
  place : PlaceInv s
  content : ContentInv g s
  complete : CompleteInv s
  late : LateInv s
  format : FormatInv strftime s

theorem SenderInv.step (h : SenderInv g strftime s) (hs : senderStep g strftime s a = some s') :
    SenderInv g strftime s' where
  slot := h.slot.step hs
  place := h.place.step h.slot hs
  content := h.content.step h.slot hs
  complete := h.complete.step h.slot hs
  late := h.late.step h.slot h.content hs
  format := h.format.step hs

theorem senderInv_initial {fn : Formatter} {key : List UInt8} {out enc : Nat → UInt8} :
    SenderInv g strftime (senderInitial σ fn key out enc) where
  format := ⟨.nil, fun h => absurd rfl h, by simp [senderInitial], Or.inl rfl,
    by simp [senderInitial]⟩
  slot := ⟨rfl, rfl, rfl, by simp [senderInitial, SendPc.inSlot], Nat.zero_le _,
    by simp [senderInitial, SendPc.lineLength]⟩
  place := ⟨List.Pairwise.nil, by simp [senderInitial]⟩
  content := by simp [ContentInv, senderInitial]
  complete := by simp [CompleteInv, senderInitial]
  late := ⟨by simp [senderInitial], by simp [senderInitial]⟩

end Logmoko
