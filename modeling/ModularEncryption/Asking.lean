import ModularEncryption.Error.Basic

/-! # Questions to key retrievers

A reader may have to ask a key retriever for a key before it can go on. A step that does so asks
once at most, so it is either done, or waits for one answer and is done after it. Who answers, and
how, is left to whoever runs the step: a fixed function (`run`), or collaborators with a state of
their own. -/

namespace ModularEncryption

/-- A reference to a key retriever. -/
structure RetrieverRef where
  index : Nat
deriving DecidableEq, Repr

/-- What a key retriever answers. -/
abbrev KeyAnswer := Except Failure Bytes

/-- A step that asks a key retriever once at most. -/
inductive Asking (α : Type) where
  /-- The step is done. -/
  | done (result : α)
  /-- The step needs the key for metadata, and is done with the answer. -/
  | ask (retriever : RetrieverRef) (metadata : Bytes) (resume : KeyAnswer → α)

namespace Asking

variable {α β : Type}

/-- The step with a function applied to its result. -/
def map (f : α → β) : Asking α → Asking β
  | done a => done (f a)
  | ask retriever metadata resume => ask retriever metadata fun answer => f (resume answer)

/-- The result, if retrievers answer by a function. -/
def run (answer : RetrieverRef → Bytes → KeyAnswer) : Asking α → α
  | done a => a
  | ask retriever metadata resume => resume (answer retriever metadata)

@[simp] theorem run_done (answer : RetrieverRef → Bytes → KeyAnswer) (a : α) :
    (done a).run answer = a := rfl

@[simp] theorem run_map (answer : RetrieverRef → Bytes → KeyAnswer) (f : α → β) (s : Asking α) :
    (s.map f).run answer = f (s.run answer) := by
  cases s <;> rfl

end Asking

end ModularEncryption
