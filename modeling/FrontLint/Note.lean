import FrontLint.Text.Basic

/-!
# Notes

What a run reports about itself while it works, and results that carry their notes along.
-/

namespace FrontLint

inductive Level where
  | debug
  | warning
  | error
deriving DecidableEq

def Level.name : Level → String
  | .debug => "DEBUG"
  | .warning => "WARNING"
  | .error => "ERROR"

inductive Note where
  | notMapping
  | multiLine (key : Text)
  | rootCreated (root : String)
  | rootRemoved (root : String)
  | skipped (file : String)
  | notProcessed (file reason : String)
  | nothingToLint
  | running (command : List String)
  | runFailed (reason : String)
deriving DecidableEq

namespace Note

def level : Note → Level
  | .multiLine _ | .nothingToLint => .warning
  | .notProcessed _ _ | .runFailed _ => .error
  | _ => .debug

def message : Note → String
  | .notMapping => "Front matter is not a mapping, ignoring"
  | .multiLine key => s!"Skipping multi-line '{key.toString}' field"
  | .rootCreated root => s!"Cache root: {root}"
  | .rootRemoved root => s!"Removed cache root: {root}"
  | .skipped file => s!"Skipped: {file} (no lintable front matter)"
  | .notProcessed file reason => s!"Error processing {file}: {reason}"
  | .nothingToLint => "No files with frontmatter found matching the patterns"
  | .running command => "Running: " ++ " ".intercalate command
  | .runFailed reason => s!"Lint failed: {reason}"

end Note

/-- A result, and the notes made on the way to it, in order. -/
structure Noted (ε α : Type) where
  notes : List Note
  result : Except ε α

namespace Noted

def pure (a : α) : Noted ε α := ⟨[], .ok a⟩

/-- Go on with the value of a result; after a fault nothing more is noted. -/
def bind (x : Noted ε α) (f : α → Noted ε β) : Noted ε β :=
  match x.result with
  | .ok a => ⟨x.notes ++ (f a).notes, (f a).result⟩
  | .error e => ⟨x.notes, .error e⟩

instance : Monad (Noted ε) where
  pure := pure
  bind := bind

def fail (e : ε) : Noted ε α := ⟨[], .error e⟩

def note (n : Note) : Noted ε Unit := ⟨[n], .ok ()⟩

def ofExcept (r : Except ε α) : Noted ε α := ⟨[], r⟩

def mapFault (f : ε → ε') (x : Noted ε α) : Noted ε' α := ⟨x.notes, x.result.mapError f⟩

@[simp] theorem pure_bind (a : α) (f : α → Noted ε β) : (pure a).bind f = f a := by
  simp [pure, bind]

@[simp] theorem fail_bind (e : ε) (f : α → Noted ε β) : (fail e : Noted ε α).bind f = fail e :=
  rfl

theorem bind_assoc (x : Noted ε α) (f : α → Noted ε β) (g : β → Noted ε γ) :
    (x.bind f).bind g = x.bind fun a => (f a).bind g := by
  cases x with
  | mk notes result =>
    cases result with
    | error e => rfl
    | ok a =>
      cases h : (f a).result <;> simp [bind, h]

@[simp] theorem result_pure (a : α) : (Pure.pure a : Noted ε α).result = .ok a := rfl

@[simp] theorem result_fail (e : ε) : (fail e : Noted ε α).result = .error e := rfl

@[simp] theorem result_note (n : Note) : (note n : Noted ε Unit).result = .ok () := rfl

@[simp] theorem result_ofExcept (r : Except ε α) : (ofExcept r).result = r := rfl

@[simp] theorem result_mapFault (f : ε → ε') (x : Noted ε α) :
    (x.mapFault f).result = x.result.mapError f := rfl

theorem result_bind (x : Noted ε α) (f : α → Noted ε β) :
    (x >>= f).result = x.result.bind fun a => (f a).result := by
  cases x with
  | mk notes result => cases result <;> rfl

/-- A result in two steps is the result of the second step on the value of the first. -/
theorem result_bind_eq_ok_iff {x : Noted ε α} {f : α → Noted ε β} {b : β} :
    (x >>= f).result = .ok b ↔ ∃ a, x.result = .ok a ∧ (f a).result = .ok b := by
  rw [result_bind]
  cases x.result with
  | error e => simp [Except.bind]
  | ok a => simp [Except.bind]

theorem result_bind_eq_error_iff {x : Noted ε α} {f : α → Noted ε β} {e : ε} :
    (x >>= f).result = .error e ↔
      x.result = .error e ∨ ∃ a, x.result = .ok a ∧ (f a).result = .error e := by
  rw [result_bind]
  cases x.result with
  | error e' => simp [Except.bind]
  | ok a => simp [Except.bind]

/-- Only on the value of a result does it matter how one goes on. -/
theorem bind_congr {x : Noted ε α} {f g : α → Noted ε β}
    (h : ∀ a, x.result = .ok a → f a = g a) : (x >>= f) = (x >>= g) := by
  cases x with
  | mk notes result =>
    cases result with
    | error e => rfl
    | ok a =>
      have ha := h a rfl
      simp only [Bind.bind, bind, ha]

theorem result_of_mapFault {f : ε → ε'} {x : Noted ε α} {a : α}
    (h : (x.mapFault f).result = .ok a) : x.result = .ok a := by
  rw [result_mapFault] at h
  cases hx : x.result with
  | error e =>
    rw [hx] at h
    cases h
  | ok b =>
    rw [hx] at h
    cases h
    rfl

/-- A result can be compared by its value alone. -/
theorem eq_ok_of_toOption {r : Except ε α} {a : α} (h : r.toOption = some a) : r = .ok a := by
  cases r with
  | error e => cases h
  | ok b => exact congrArg Except.ok (Option.some.inj h)

end Noted

end FrontLint
