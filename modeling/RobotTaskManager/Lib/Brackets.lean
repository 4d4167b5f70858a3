import Mathlib.Data.List.Basic

set_option autoImplicit false

/-! # Brackets

Histories of openings and closings, as something that is entered and left leaves them behind. A
history is `Balanced` if every opening has its closing, with the same label and properly nested.
`Unclosed` keeps the labels of the brackets that are still open while the history goes on, and
`Unclosed.balanced` says that a history with none left open is balanced.
-/

namespace Brackets

/-- A bracket is opened with a label, or closed with a label and a value. -/
inductive Paren (α β : Type)
  | opening (a : α)
  | closing (a : α) (b : β)
  deriving DecidableEq

variable {α β : Type}

/-- Each opening is closed under its label, after what has been opened in between. -/
inductive Balanced : List (Paren α β) → Prop
  | nil : Balanced []
  | pair {a : α} {b : β} {l l' : List (Paren α β)} : Balanced l → Balanced l' →
      Balanced (.opening a :: (l ++ .closing a b :: l'))

/-- The history leaves brackets with these labels open, the innermost one first. -/
inductive Unclosed : List (Paren α β) → List α → Prop
  | nil : Unclosed [] []
  | opening {l : List (Paren α β)} {as : List α} {a : α} : Unclosed l as →
      Unclosed (l ++ [.opening a]) (a :: as)
  | closing {l : List (Paren α β)} {as : List α} {a : α} {b : β} : Unclosed l (a :: as) →
      Unclosed (l ++ [.closing a b]) as

theorem Balanced.append {l l' : List (Paren α β)} (h : Balanced l) (h' : Balanced l') :
    Balanced (l ++ l') := by
  induction h with
  | nil => exact h'
  | pair h₁ _ _ ih =>
      rw [List.cons_append, List.append_assoc, List.cons_append]
      exact .pair h₁ ih

theorem Balanced.enclose {l : List (Paren α β)} (h : Balanced l) (a : α) (b : β) :
    Balanced (.opening a :: (l ++ [.closing a b])) :=
  .pair h .nil

/-- The history falls into balanced parts between the openings of the open brackets. -/
def Parts : List (Paren α β) → List α → Prop
  | l, [] => Balanced l
  | l, a :: as => ∃ l₁ l₂, l = l₁ ++ .opening a :: l₂ ∧ Parts l₁ as ∧ Balanced l₂

theorem Parts.append {l l' : List (Paren α β)} {as : List α} (h : Parts l as)
    (h' : Balanced l') : Parts (l ++ l') as := by
  cases as with
  | nil => exact Balanced.append h h'
  | cons a as =>
      obtain ⟨l₁, l₂, rfl, h₁, h₂⟩ := h
      exact ⟨l₁, l₂ ++ l', by rw [List.append_assoc, List.cons_append], h₁, h₂.append h'⟩

theorem Unclosed.parts {l : List (Paren α β)} {as : List α} (h : Unclosed l as) :
    Parts l as := by
  induction h with
  | nil => exact Balanced.nil
  | opening _ ih => exact ⟨_, [], rfl, ih, .nil⟩
  | @closing _ as a b _ ih =>
      obtain ⟨l₁, l₂, rfl, h₁, h₂⟩ := ih
      have henclosed := h₁.append (h₂.enclose a b)
      rwa [← List.cons_append, ← List.append_assoc] at henclosed

/-- **With no bracket left open, a history is balanced.** -/
theorem Unclosed.balanced {l : List (Paren α β)} (h : Unclosed l []) : Balanced l := h.parts

end Brackets
