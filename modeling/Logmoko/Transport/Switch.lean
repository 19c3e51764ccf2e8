import Logmoko.Transport.Attempts

/-!
# 暗号への切り替え

`psk_enabled` は一度 1 になると戻らず、consumer は slot ごとに一度だけ読む。
鍵は、書いている途中にも読まれうる。

* `SwitchInv` — 平文の送信はみな、暗号の送信より前の record のものである
* `ProtectInv` — 番号 `m` からの record は暗号でしか送られない
* `KeyInv` — 決める鍵が一つなら、暗号にはその鍵だけが使われる
-/

namespace Logmoko

open Transition

variable {σ : Type} {g : Gcm} {strftime : Int → CStr} {s s' : SenderState σ} {a : SenderAction σ}

/-! ## 途中まで書かれた鍵 -/

/-- 同じ鍵を上書きしている途中で読めるのは、その鍵だけである。 -/
theorem tornRead_self {key seen : List UInt8} (h : tornRead key key seen = true) : seen = key := by
  induction key generalizing seen with
  | nil =>
    cases seen with
    | nil => rfl
    | cons => cases h
  | cons a key ih =>
    cases seen with
    | nil => cases h
    | cons c seen =>
      simp only [tornRead, Bool.or_self, Bool.and_eq_true, beq_iff_eq] at h
      rw [h.1, ih h.2]

/-! ## 平文から暗号へ -/

/-- `psk_enabled` を読んだ後の値。 -/
def SendPc.mode : SendPc → Option Bool
  | .sending _ usePsk _ => some usePsk
  | _ => none

/-- 平文の送信は、暗号の送信より前の record に限る。 -/
structure SwitchInv (s : SenderState σ) : Prop where
  enabled : ∀ x ∈ s.hist.attempts, x.key.isSome = true → s.pskEnabled = true
  ordered : ∀ x ∈ s.hist.attempts, ∀ y ∈ s.hist.attempts, x.index ≤ y.index →
    x.key.isSome = true → y.key.isSome = true
  mode : ∀ b, s.pc.mode = some b → (b = true → s.pskEnabled = true) ∧
    ∀ x ∈ s.hist.attempts, (x.key.isSome = true → b = true) ∧
      (x.index = s.hist.peeked.length - 1 → x.key.isSome = b)

/-- 送信は、今の record までのものである。 -/
theorem PlaceInv.index_le (h : PlaceInv s) (hslot : SlotInv s) {x : Attempt σ}
    (hx : x ∈ s.hist.attempts) : x.index < s.hist.peeked.length := by
  have hpast := h.past x hx
  unfold SenderState.Past at hpast
  cases hin : s.pc.inSlot with
  | true =>
    have := hslot.slot hin
    rw [nextIndex_of_inSlot hin] at hpast
    omega
  | false =>
    rw [nextIndex_of_not_inSlot hin] at hpast
    rcases hpast with hlt | ⟨-, hcursor⟩
    · exact hlt
    · cases hpc : s.pc <;> rw [hpc] at hcursor hin
      case sending => cases hin
      all_goals exact absurd hcursor (Nat.not_lt_zero _)

/-- まだ `psk_enabled` を読んでいない record は、どこにも送られていない。 -/
theorem PlaceInv.index_lt (h : PlaceInv s) (hin : s.pc.inSlot = true) (hcursor : s.pc.cursor = 0)
    {x : Attempt σ} (hx : x ∈ s.hist.attempts) : x.index < s.hist.peeked.length - 1 := by
  have hpast := h.past x hx
  rw [SenderState.Past, nextIndex_of_inSlot hin, hcursor] at hpast
  omega

theorem SwitchInv.attempt (hslot : SlotInv s) (hplace : PlaceInv s) (h : SwitchInv s)
    {n cursor : Nat} {usePsk : Bool} {server : σ} {key packet : Option (List UInt8)}
    {enc : Nat → UInt8} (hpc : s.pc = .sending n usePsk cursor) (hkey : key.isSome = usePsk) :
    SwitchInv { s.attempt n usePsk cursor server key packet with enc } := by
  obtain ⟨hon, hmode⟩ := h.mode usePsk (by rw [hpc]; rfl)
  refine ⟨?_, ?_, ?_⟩
  · intro x hx hsome
    rcases List.mem_append.mp hx with hx | hx
    · exact h.enabled x hx hsome
    · obtain rfl := List.mem_singleton.mp hx
      exact hon (hkey ▸ hsome)
  · intro x hx y hy hle hsome
    rcases List.mem_append.mp hx with hx | hx <;> rcases List.mem_append.mp hy with hy | hy
    · exact h.ordered x hx y hy hle hsome
    · obtain rfl := List.mem_singleton.mp hy
      exact hkey.trans ((hmode x hx).1 hsome)
    · obtain rfl := List.mem_singleton.mp hx
      -- 後の送信は、同じ record のものに限る
      have hlt := hplace.index_le hslot hy
      have hle' : s.hist.peeked.length - 1 ≤ y.index := hle
      rw [(hmode y hy).2 (by omega), ← hkey]
      exact hsome
    · rw [List.mem_singleton.mp hy, ← List.mem_singleton.mp hx]
      exact hsome
  · intro b hb
    obtain rfl : usePsk = b := Option.some.inj hb
    refine ⟨hon, ?_⟩
    intro x hx
    rcases List.mem_append.mp hx with hx | hx
    · exact hmode x hx
    · obtain rfl := List.mem_singleton.mp hx
      exact ⟨fun hsome => hkey ▸ hsome, fun _ => hkey⟩

theorem SwitchInv.step (hslot : SlotInv s) (hplace : PlaceInv s) (h : SwitchInv s)
    (hs : senderStep g strftime s a = some s') : SwitchInv s' := by
  cases senderStep_move hs with
  | encrypted hpc => exact h.attempt hslot hplace hpc rfl
  | encryptFailed hpc | plain hpc => exact h.attempt hslot hplace hpc rfl
  | loadPsk hpc =>
    refine ⟨h.enabled, h.ordered, ?_⟩
    intro b hb
    obtain rfl : s.pskEnabled = b := Option.some.inj hb
    refine ⟨id, ?_⟩
    intro x hx
    refine ⟨h.enabled x hx, ?_⟩
    intro hindex
    have hlt := hplace.index_lt (by rw [hpc]; rfl) (by rw [hpc]; rfl) hx
    have hindex' : x.index = s.hist.peeked.length - 1 := hindex
    omega
  | format hpc =>
    refine ⟨h.enabled, h.ordered, ?_⟩
    intro b hb
    rcases formatted_pc strftime s _ _ with ⟨n, hload⟩ | ⟨hconsume, -⟩
    · rw [hload] at hb
      cases hb
    · rw [hconsume] at hb
      cases hb
  | slot | endOfList | consume =>
    refine ⟨h.enabled, h.ordered, ?_⟩
    intro b hb
    cases hb
  | enablePsk =>
    exact ⟨fun _ _ _ => rfl, h.ordered, fun b hb => ⟨fun _ => rfl, (h.mode b hb).2⟩⟩
  | attachLogListener | setSocketPsk | setFormat => exact ⟨h.enabled, h.ordered, h.mode⟩

/-! ## 切り替えた後の record -/

/-- 番号 `m` からの record は、平文では送られない。 -/
structure ProtectInv (m : Nat) (s : SenderState σ) : Prop where
  enabled : s.pskEnabled = true
  attempts : ∀ x ∈ s.hist.attempts, m ≤ x.index → x.key.isSome = true
  mode : m < s.hist.peeked.length → ∀ b, s.pc.mode = some b → b = true

/-- `psk_enabled` を 1 にした後に取り出す record は、平文では送られない。 -/
theorem protectInv_enabled (hslot : SlotInv s) (hplace : PlaceInv s) {key : List UInt8} :
    ProtectInv s.hist.peeked.length
      { s with pskKey := key, writing := none, pskEnabled := true } := by
  refine ⟨rfl, ?_, fun hlt => absurd hlt (Nat.lt_irrefl _)⟩
  intro x hx hle
  exact absurd (hplace.index_le hslot hx) (Nat.not_lt.mpr hle)

theorem ProtectInv.attempt {m : Nat} (hslot : SlotInv s) (h : ProtectInv m s) {n cursor : Nat}
    {usePsk : Bool} {server : σ} {key packet : Option (List UInt8)} {enc : Nat → UInt8}
    (hpc : s.pc = .sending n usePsk cursor) (hkey : key.isSome = usePsk) :
    ProtectInv m { s.attempt n usePsk cursor server key packet with enc } := by
  have hpos := hslot.slot (by rw [hpc]; rfl)
  have hmode : m < s.hist.peeked.length → usePsk = true :=
    fun hlt => h.mode hlt usePsk (by rw [hpc]; rfl)
  refine ⟨h.enabled, ?_, ?_⟩
  · intro x hx hle
    rcases List.mem_append.mp hx with hx | hx
    · exact h.attempts x hx hle
    · obtain rfl := List.mem_singleton.mp hx
      have hle' : m ≤ s.hist.peeked.length - 1 := hle
      exact hkey.trans (hmode (by omega))
  · intro hlt b hb
    obtain rfl : usePsk = b := Option.some.inj hb
    exact hmode hlt

theorem ProtectInv.step {m : Nat} (hslot : SlotInv s) (h : ProtectInv m s)
    (hs : senderStep g strftime s a = some s') : ProtectInv m s' := by
  cases senderStep_move hs with
  | encrypted hpc => exact h.attempt hslot hpc rfl
  | encryptFailed hpc | plain hpc => exact h.attempt hslot hpc rfl
  | loadPsk hpc =>
    refine ⟨h.enabled, h.attempts, ?_⟩
    intro _ b hb
    obtain rfl : s.pskEnabled = b := Option.some.inj hb
    exact h.enabled
  | format hpc =>
    refine ⟨h.enabled, h.attempts, ?_⟩
    intro _ b hb
    rcases formatted_pc strftime s _ _ with ⟨n, hload⟩ | ⟨hconsume, -⟩
    · rw [hload] at hb
      cases hb
    · rw [hconsume] at hb
      cases hb
  | slot | endOfList | consume =>
    refine ⟨h.enabled, h.attempts, ?_⟩
    intro _ b hb
    cases hb
  | enablePsk => exact ⟨rfl, h.attempts, h.mode⟩
  | attachLogListener | setSocketPsk | setFormat => exact ⟨h.enabled, h.attempts, h.mode⟩

/-! ## 一つの鍵 -/

/-- 決める鍵は `key` だけである。 -/
def SenderAction.Sets (key : List UInt8) : SenderAction σ → Prop
  | .setSocketPsk key' => key' = key
  | _ => True

/-- 有効な鍵は `key` で、暗号に使われた鍵もそれだけである。 -/
structure KeyInv (key : List UInt8) (s : SenderState σ) : Prop where
  writing : ∀ key', s.writing = some key' → key' = key
  pskKey : s.pskEnabled = true → s.pskKey = key
  attempts : ∀ x ∈ s.hist.attempts, ∀ key', x.key = some key' → key' = key

/-- 暗号に使う鍵は、どの時点で読んでも `key` である。 -/
theorem KeyInv.readsKey {key seen : List UInt8} (h : KeyInv key s) (hon : s.pskEnabled = true)
    (hk : s.readsKey seen = true) : seen = key := by
  unfold SenderState.readsKey at hk
  cases hw : s.writing with
  | none =>
    rw [hw] at hk
    exact (beq_iff_eq.mp hk).trans (h.pskKey hon)
  | some key' =>
    rw [hw, h.writing key' hw, h.pskKey hon] at hk
    exact tornRead_self hk

theorem KeyInv.attempt {key : List UInt8} (h : KeyInv key s) {n cursor : Nat} {usePsk : Bool}
    {server : σ} {used packet : Option (List UInt8)} {enc : Nat → UInt8}
    (hused : ∀ key', used = some key' → key' = key) :
    KeyInv key { s.attempt n usePsk cursor server used packet with enc } := by
  refine ⟨h.writing, h.pskKey, ?_⟩
  intro x hx
  rcases List.mem_append.mp hx with hx | hx
  · exact h.attempts x hx
  · obtain rfl := List.mem_singleton.mp hx
    exact hused

theorem KeyInv.step {key : List UInt8} (hswitch : SwitchInv s) (h : KeyInv key s)
    (ha : a.Sets key) (hs : senderStep g strftime s a = some s') : KeyInv key s' := by
  have hread : ∀ seen n cursor, s.pc = .sending n true cursor → s.readsKey seen = true →
      ∀ key', some seen = some key' → key' = key := by
    intro seen n cursor hpc hk key' hsome
    obtain rfl := Option.some.inj hsome
    exact h.readsKey ((hswitch.mode true (by rw [hpc]; rfl)).1 rfl) hk
  cases senderStep_move hs with
  | encrypted hpc _ hk => exact h.attempt (hread _ _ _ hpc hk)
  | encryptFailed hpc _ hk => exact h.attempt (hread _ _ _ hpc hk)
  | plain => exact h.attempt fun key' hnone => absurd hnone (by simp)
  | setSocketPsk =>
    refine ⟨?_, h.pskKey, h.attempts⟩
    intro key' hw
    exact (Option.some.inj hw).symm.trans ha
  | enablePsk hw =>
    refine ⟨?_, fun _ => h.writing _ hw, h.attempts⟩
    intro key' hnone
    cases hnone
  | slot | format | loadPsk | endOfList | consume | attachLogListener | setFormat =>
    exact ⟨h.writing, h.pskKey, h.attempts⟩

end Logmoko
