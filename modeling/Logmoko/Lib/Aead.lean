import Mathlib.Data.Fintype.EquivFin
import Mathlib.Data.Fintype.Vector

/-!
# 認証付き暗号

認証付き暗号を、暗号化・tag・復号・tag の検査の四つの関数と、その間の法則で与える。
鍵と初期値の型には何も求めない。暗号化は長さを変えず、復号で元に戻る。検査は暗号化が作る tag だけを
受け入れる。

文字の種類が有限なら、長さを変えない単射は全単射なので、どの列も何かの暗号文である
（`encrypt_decrypt`）。受け入れられる tag はそこから決まる（`verify_iff`）。
-/

namespace Aead

/-- tag の長さが `tagLen` の認証付き暗号。 -/
structure Scheme (tagLen : Nat) (κ ι α : Type*) where
  encrypt : κ → ι → List α → List α
  tag : κ → ι → List α → List α
  decrypt : κ → ι → List α → List α
  verify : κ → ι → List α → List α → Bool
  length_encrypt : ∀ k iv plain, (encrypt k iv plain).length = plain.length
  length_tag : ∀ k iv plain, (tag k iv plain).length = tagLen
  decrypt_encrypt : ∀ k iv plain, decrypt k iv (encrypt k iv plain) = plain
  verify_encrypt : ∀ k iv plain t, verify k iv (encrypt k iv plain) t = true ↔ t = tag k iv plain

variable {tagLen : Nat} {κ ι α : Type*} [Finite α] (g : Scheme tagLen κ ι α)

/-- どの列も何かの暗号文である。 -/
theorem Scheme.encrypt_surjective (k : κ) (iv : ι) (cipher : List α) :
    ∃ plain, g.encrypt k iv plain = cipher := by
  have : Fintype α := Fintype.ofFinite α
  let f : List.Vector α cipher.length → List.Vector α cipher.length := fun v =>
    ⟨g.encrypt k iv v.toList, by simp [g.length_encrypt]⟩
  have hinj : Function.Injective f := by
    intro v w h
    have heq := congrArg (fun x => g.decrypt k iv x.toList) h
    exact List.Vector.toList_injective
      (by simpa [f, List.Vector.toList, g.decrypt_encrypt] using heq)
  obtain ⟨v, hv⟩ := Finite.surjective_of_injective hinj ⟨cipher, rfl⟩
  exact ⟨v.toList, congrArg List.Vector.toList hv⟩

/-- 復号してから暗号化しても元に戻る。 -/
theorem Scheme.encrypt_decrypt (k : κ) (iv : ι) (cipher : List α) :
    g.encrypt k iv (g.decrypt k iv cipher) = cipher := by
  obtain ⟨plain, rfl⟩ := g.encrypt_surjective k iv cipher
  rw [g.decrypt_encrypt]

/-- 受け入れられるのは、復号した列を暗号化したときの tag だけである。 -/
theorem Scheme.verify_iff (k : κ) (iv : ι) (cipher t : List α) :
    g.verify k iv cipher t = true ↔ t = g.tag k iv (g.decrypt k iv cipher) := by
  obtain ⟨plain, rfl⟩ := g.encrypt_surjective k iv cipher
  rw [g.verify_encrypt, g.decrypt_encrypt]

end Aead
