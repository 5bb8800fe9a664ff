import Mathlib.Data.List.Basic

/-!
# Streams of records

`Item input x rest` says that `input` starts with a complete record `x` followed by
`rest`. `RecordStream` iterates it. When items are read deterministically, a stream that
cannot be continued is the longest one: every other stream from the same input
is a prefix of it.
-/

/-- Zero or more complete records in front of the rest of the input. -/
inductive RecordStream {α β : Type*} (Item : List α → β → List α → Prop) :
    List α → List β → List α → Prop where
  | done {input} : RecordStream Item input [] input
  | item {input x middle xs rest} (first : Item input x middle)
      (others : RecordStream Item middle xs rest) : RecordStream Item input (x :: xs) rest

namespace RecordStream

variable {α β : Type*} {Item : List α → β → List α → Prop}

/-- A record and the rest after it are determined by the input. -/
def Deterministic (Item : List α → β → List α → Prop) : Prop :=
  ∀ input x rest x' rest', Item input x rest → Item input x' rest' → x = x' ∧ rest = rest'

/-- No record starts here. -/
def Stuck (Item : List α → β → List α → Prop) (input : List α) : Prop :=
  ∀ x rest, ¬ Item input x rest

/-- The longest stream from an input, of which every other one is a prefix. -/
structure Longest (Item : List α → β → List α → Prop) (input : List α) (xs : List β)
    (rest : List α) : Prop where
  stream : RecordStream Item input xs rest
  longest : ∀ {ys rest'}, RecordStream Item input ys rest' → ys <+: xs

/-- A stream that stops where no record starts is the longest one. -/
theorem longest_of_stuck (deterministic : Deterministic Item) {input rest : List α} {xs : List β}
    (stream : RecordStream Item input xs rest) (stuck : Stuck Item rest) :
    Longest Item input xs rest := by
  refine ⟨stream, ?_⟩
  induction stream with
  | done =>
    intro ys rest' other
    cases other with
    | done => exact List.prefix_refl _
    | item read _ => exact absurd read (stuck _ _)
  | item first _ inductionHypothesis =>
    intro ys rest' other
    cases other with
    | done => exact List.nil_prefix
    | item read others =>
      obtain ⟨rfl, rfl⟩ := deterministic _ _ _ _ _ first read
      exact List.cons_prefix_cons.mpr ⟨rfl, inductionHypothesis stuck others⟩

end RecordStream
