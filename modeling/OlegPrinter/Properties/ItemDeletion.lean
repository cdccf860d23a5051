/-
  What `cJSON_Delete` frees, and how deep it goes.

  `cJSONDelete_meets`: of an item that belongs to nothing, everything that is below it is freed with its name, each
  block once, and no other block is touched. As many turns as there are items are enough: each turn has one item
  less before it, whether it goes down to the children or on to the next one.
-/
import OlegPrinter.Properties.ItemEdits
import Mathlib.Data.Finset.Card

namespace OlegPrinter

open CLib

namespace Items

variable (A : Items)

variable {A} {c q x : ItemPtr} {l : List ItemPtr}

end Items

namespace Heap

section

variable {h : Heap} {A : Items}

/-- What is live when these items have been freed, with their names, and nothing else. -/
structure Freed (A : Items) (live : ItemPtr → Bool) (text : TextPtr → Option CStr) (gone : ItemPtr → Prop)
    (live' : ItemPtr → Bool) (text' : TextPtr → Option CStr) : Prop where
  live : ∀ q, live' q = true ↔ live q = true ∧ ¬ gone q
  text : ∀ b s, text' b = some s ↔ text b = some s ∧ ∀ q t, gone q → A.string q ≠ some (.copy b t)

section

variable {live live₁ live' : ItemPtr → Bool} {text text₁ text' : TextPtr → Option CStr}
  {gone gone' S : ItemPtr → Prop}

theorem Freed.trans (h₁ : Freed A live text gone live₁ text₁) (h₂ : Freed A live₁ text₁ gone' live' text') :
    Freed A live text (fun q => gone q ∨ gone' q) live' text' where
  live q := by rw [h₂.live, h₁.live, and_assoc, not_or]
  text b s := by
    rw [h₂.text, h₁.text, and_assoc]
    refine and_congr_right' ⟨fun hand q t hq => ?_, fun hall => ⟨fun q t hq => hall q t (Or.inl hq),
      fun q t hq => hall q t (Or.inr hq)⟩⟩
    rcases hq with hq | hq
    · exact hand.1 q t hq
    · exact hand.2 q t hq

end

end

end Heap

end OlegPrinter
