import Mathlib.Data.List.Basic

/-! A party that reads its input one item after the other and writes output meanwhile. What it has
still to read decides where it will end up and what it will have written. -/

namespace Channels

variable {σ α β : Type*}

/-- A party: what an item makes of it, and what it writes then. -/
structure Party (σ α β : Type*) where
  next : σ → α → σ
  emit : σ → α → List β

namespace Party

variable (p : Party σ α β)

/-- The party once it has read the input. -/
def settle (s : σ) (input : List α) : σ := input.foldl p.next s

/-- What it writes while it reads the input. -/
def emitted : σ → List α → List β
  | _, [] => []
  | s, a :: input => p.emit s a ++ emitted (p.next s a) input

@[simp] theorem settle_nil (s : σ) : p.settle s [] = s := rfl

@[simp] theorem emitted_nil (s : σ) : p.emitted s [] = [] := rfl

theorem settle_cons (s : σ) (a : α) (input : List α) :
    p.settle s (a :: input) = p.settle (p.next s a) input := rfl

theorem emitted_cons (s : σ) (a : α) (input : List α) :
    p.emitted s (a :: input) = p.emit s a ++ p.emitted (p.next s a) input := rfl

theorem settle_append (s : σ) (input more : List α) :
    p.settle s (input ++ more) = p.settle (p.settle s input) more := List.foldl_append

theorem emitted_append (s : σ) (input more : List α) :
    p.emitted s (input ++ more) = p.emitted s input ++ p.emitted (p.settle s input) more := by
  induction input generalizing s with
  | nil => rfl
  | cons a input ih =>
      rw [List.cons_append, emitted_cons, emitted_cons, ih, List.append_assoc, settle_cons]

end Party

/-! ## Two queues -/

/-- A party between what was written to it and what it has written. -/
structure Link (σ α β : Type*) where
  party : σ
  input : List α
  output : List β

namespace Link

variable (p : Party σ α β)

/-- The party takes the next item of its input. -/
def read (l : Link σ α β) : Option (Link σ α β) :=
  match l.input with
  | [] => none
  | a :: input => some ⟨p.next l.party a, input, l.output ++ p.emit l.party a⟩

/-- Where the party will end up. -/
def settled (l : Link σ α β) : σ := p.settle l.party l.input

/-- All that will have been written by then. -/
def inFlight (l : Link σ α β) : List β := l.output ++ p.emitted l.party l.input

variable {p} {l l' : Link σ α β}

theorem settled_read (h : l.read p = some l') : l'.settled p = l.settled p := by
  cases hinput : l.input with
  | nil => simp [read, hinput] at h
  | cons a input =>
      rw [read, hinput] at h
      obtain rfl := Option.some.inj h
      rw [settled, settled, hinput, Party.settle_cons]

/-- Reading changes nothing of what will have been written. -/
theorem inFlight_read (h : l.read p = some l') : l'.inFlight p = l.inFlight p := by
  cases hinput : l.input with
  | nil => simp [read, hinput] at h
  | cons a input =>
      rw [read, hinput] at h
      obtain rfl := Option.some.inj h
      rw [inFlight, inFlight, hinput, Party.emitted_cons, List.append_assoc]

theorem settled_write (more : List α) :
    settled p { l with input := l.input ++ more } = p.settle (l.settled p) more :=
  p.settle_append l.party l.input more

theorem inFlight_write (more : List α) :
    inFlight p { l with input := l.input ++ more } =
      l.inFlight p ++ p.emitted (l.settled p) more := by
  rw [inFlight, inFlight, Party.emitted_append, List.append_assoc]
  rfl

/-- What is taken off the output is taken off the front. -/
theorem inFlight_drop (n : ℕ) :
    l.output.take n ++ inFlight p { l with output := l.output.drop n } = l.inFlight p := by
  rw [inFlight, inFlight, ← List.append_assoc, List.take_append_drop]

theorem inFlight_of_read_all (h : l.input = []) : l.inFlight p = l.output := by
  rw [inFlight, h, Party.emitted_nil, List.append_nil]

end Link

end Channels
