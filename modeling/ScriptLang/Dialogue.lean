/-! Computations that ask questions. A dialogue ends with an answer or asks a question and goes on
with the reply. When the questions are again about such computations, `drive` answers them with a
stack of waiting dialogues, and `unfold` by recursion. Both are bounded by a count of steps or
levels, because asking may go on forever. -/

namespace ScriptLang

inductive Dialogue (Q R α : Type) : Type
  | answer (a : α)
  | ask (question : Q) (resume : R → Dialogue Q R α)

namespace Dialogue

variable {Q R α β : Type}

def bind : Dialogue Q R α → (α → Dialogue Q R β) → Dialogue Q R β
  | answer a, f => f a
  | ask q resume, f => ask q fun reply => (resume reply).bind f

instance : Monad (Dialogue Q R) where
  pure := answer
  bind := bind

theorem bind_answer (d : Dialogue Q R α) : d.bind answer = d := by
  induction d with
  | answer a => rfl
  | ask q resume ih => exact congrArg (ask q) (funext ih)

theorem bind_assoc {γ : Type} (d : Dialogue Q R α) (f : α → Dialogue Q R β)
    (g : β → Dialogue Q R γ) : (d.bind f).bind g = d.bind fun a => (f a).bind g := by
  induction d with
  | answer a => rfl
  | ask q resume ih => exact congrArg (ask q) (funext ih)

instance : LawfulMonad (Dialogue Q R) :=
  LawfulMonad.mk' (Dialogue Q R) bind_answer (fun _ _ => rfl) bind_assoc

/-- Answers the questions in the monad `m`. -/
def interpret {m : Type → Type} [Monad m] (reply : Q → m R) : Dialogue Q R α → m α
  | answer a => pure a
  | ask q resume => reply q >>= fun r => (resume r).interpret reply

/-- Answers a question by its dialogue, whose questions are answered `levels` deep. -/
def unfold (body : Q → Dialogue Q R R) : Nat → Q → Option R
  | 0, _ => none
  | levels + 1, q => (body q).interpret (unfold body levels)

/-- Runs a dialogue. Each question is put to `body` while the dialogue that asked it waits. -/
def drive (body : Q → Dialogue Q R R) :
    Nat → List (R → Dialogue Q R R) → Dialogue Q R R → Option R
  | 0, _, _ => none
  | _ + 1, [], answer r => some r
  | steps + 1, waiting :: others, answer r => drive body steps others (waiting r)
  | steps + 1, waiting, ask q resume => drive body steps (resume :: waiting) (body q)

end Dialogue

end ScriptLang
