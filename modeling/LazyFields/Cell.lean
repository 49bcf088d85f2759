import LazyFields.Producer

/-!
The cell behind a lazy field. A single cell serves one thread; a shared cell also has a
guard, held while its producer runs and poisoned when the producer panics. A value is
stored at most once: filling a cell that has a value leaves it alone.
-/

namespace LazyFields

inductive Flavour
  | single
  | shared
  deriving DecidableEq

inductive Guard
  | free
  | held
  | poisoned
  deriving DecidableEq

inductive Cell (π : Kind → Type) (k : Kind)
  | ready (f : Flavour) (v : k.Val)
  | deferred (f : Flavour) (source : Source π k) (value : Option k.Val) (guard : Guard)

namespace Cell

variable {π : Kind → Type} {k : Kind}

def fresh (f : Flavour) (s : Source π k) : Cell π k := .deferred f s none .free

def flavour : Cell π k → Flavour
  | .ready f _ => f
  | .deferred f _ _ _ => f

def value? : Cell π k → Option k.Val
  | .ready _ v => some v
  | .deferred _ _ value _ => value

def isEvaluated (c : Cell π k) : Bool := c.value?.isSome

def source? : Cell π k → Option (Source π k)
  | .ready _ _ => none
  | .deferred _ s _ _ => some s

def guard : Cell π k → Guard
  | .ready _ _ => .free
  | .deferred _ _ _ g => g

def fill (v : k.Val) : Cell π k → Cell π k
  | .deferred f s none g => .deferred f s (some v) g
  | c => c

def withGuard (g : Guard) : Cell π k → Cell π k
  | .deferred f s value _ => .deferred f s value g
  | c => c

@[simp] theorem value?_fresh (f : Flavour) (s : Source π k) : (fresh f s).value? = none := rfl

theorem value?_fill (v : k.Val) (c : Cell π k) : (c.fill v).value? = some (c.value?.getD v) := by
  rcases c with _ | ⟨_, _, _ | _, _⟩ <;> rfl

theorem fill_of_isEvaluated {v : k.Val} {c : Cell π k} (h : c.isEvaluated) : c.fill v = c := by
  rcases c with _ | ⟨_, _, _ | _, _⟩
  · rfl
  · simp [isEvaluated, value?] at h
  · rfl

theorem eq_deferred_of_value? {c : Cell π k} (h : c.value? = none) :
    ∃ f s g, c = .deferred f s none g := by
  rcases c with _ | ⟨f, s, _ | _, g⟩
  · simp [value?] at h
  · exact ⟨f, s, g, rfl⟩
  · simp [value?] at h

@[simp] theorem value?_withGuard (g : Guard) (c : Cell π k) :
    (c.withGuard g).value? = c.value? := by
  cases c <;> rfl

@[simp] theorem flavour_fill (v : k.Val) (c : Cell π k) : (c.fill v).flavour = c.flavour := by
  rcases c with _ | ⟨_, _, _ | _, _⟩ <;> rfl

@[simp] theorem flavour_withGuard (g : Guard) (c : Cell π k) :
    (c.withGuard g).flavour = c.flavour := by
  cases c <;> rfl

@[simp] theorem source?_fill (v : k.Val) (c : Cell π k) : (c.fill v).source? = c.source? := by
  rcases c with _ | ⟨_, _, _ | _, _⟩ <;> rfl

@[simp] theorem source?_withGuard (g : Guard) (c : Cell π k) :
    (c.withGuard g).source? = c.source? := by
  cases c <;> rfl

@[simp] theorem guard_fill (v : k.Val) (c : Cell π k) : (c.fill v).guard = c.guard := by
  rcases c with _ | ⟨_, _, _ | _, _⟩ <;> rfl

theorem guard_withGuard {g : Guard} {c : Cell π k} (h : c.source? ≠ none) :
    (c.withGuard g).guard = g := by
  cases c with
  | ready => exact absurd rfl h
  | deferred => rfl

end Cell

/-- What an access finds in a cell. A stored value is handed out whatever the guard says. -/
inductive Access (π : Kind → Type) (k : Kind)
  | known (v : k.Val)
  | refused
  | blocked
  | unguarded (s : Source π k)
  | guarded (s : Source π k)

def Cell.access {π : Kind → Type} {k : Kind} : Cell π k → Access π k
  | .ready _ v => .known v
  | .deferred _ _ (some v) _ => .known v
  | .deferred .single s none _ => .unguarded s
  | .deferred .shared s none .free => .guarded s
  | .deferred .shared _ none .held => .blocked
  | .deferred .shared _ none .poisoned => .refused

theorem Cell.access_known_iff {π : Kind → Type} {k : Kind} {c : Cell π k} {v : k.Val} :
    c.access = .known v ↔ c.value? = some v := by
  rcases c with _ | ⟨_ | _, _, _ | _, _ | _ | _⟩ <;> simp [access, value?]

end LazyFields
