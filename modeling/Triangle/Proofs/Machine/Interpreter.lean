import Triangle.Proofs.Machine.Execution

/-!
# A machine

The machine as a function, as far as code without routines of its own goes.  It conforms, so what is
relied on about a machine can be had.
-/

namespace Triangle

namespace Machine

/-! ## Memory -/

namespace Memory

/-- Takes some words from the top of the stack. -/
def pop (m : Memory) (n : Nat) : Memory × List Int :=
  ({ m with stack := m.stack.take (m.stack.length - n) }, m.stack.drop (m.stack.length - n))

/-- So many words at an address. -/
def read (m : Memory) (address n : Int) : List Int :=
  (m.stack.drop address.toNat).take n.toNat

/-- Other words at an address. -/
def write (m : Memory) (address : Int) (words : List Int) : Memory :=
  { m with stack := m.stack.take address.toNat ++ words ++
      m.stack.drop (address.toNat + words.length) }

@[simp] theorem pop_push (m : Memory) (words : List Int) :
    (m.push words).pop words.length = (m, words) := by
  simp [pop, push]

@[simp] theorem pop_push_one (m : Memory) (a : Int) : (m.push [a]).pop 1 = (m, [a]) :=
  pop_push m [a]

@[simp] theorem pop_push_two (m : Memory) (a b : Int) : (m.push [a, b]).pop 2 = (m, [a, b]) :=
  pop_push m [a, b]

theorem read_eq {m : Memory} {before words behind : List Int}
    (h : m.stack = before ++ words ++ behind) : m.read before.length words.length = words := by
  simp [read, h]

theorem write_eq {m : Memory} {before old behind words : List Int}
    (h : m.stack = before ++ old ++ behind) (hlength : old.length = words.length) :
    m.write before.length words = { m with stack := before ++ words ++ behind } := by
  have hdrop : m.stack.drop (before.length + words.length) = behind := by
    rw [h, ← hlength, ← List.length_append, List.drop_left]
  simp only [write, Int.toNat_natCast, hdrop]
  simp [h]

end Memory

end Machine

open Machine

/-! ## Primitive routines -/

/-- The primitive routine at an address. -/
def Primitive.ofDisplacement? (d : Int) : Option Primitive :=
  [.id, .not, .and, .or, .succ, .pred, .neg, .add, .sub, .mult, .div, .mod, .lt, .le, .ge, .gt, .eq,
    .ne, .eol, .eof, .get, .put, .geteol, .puteol, .getint, .putint, .new, .dispose].find?
    fun routine => routine.displacement = d

theorem Primitive.ofDisplacement?_displacement (routine : Primitive) :
    ofDisplacement? routine.displacement = some routine := by
  cases routine <;> rfl

/-- What a primitive routine does. -/
def Primitive.perform? (device : Device) : Primitive → Memory → Option Memory
  | .not, m =>
    match m.pop 1 with
    | (m, [a]) => some (m.push [truth (a = 0)])
    | _ => none
  | .and, m =>
    match m.pop 2 with
    | (m, [a, b]) => some (m.push [truth (a ≠ 0 ∧ b ≠ 0)])
    | _ => none
  | .or, m =>
    match m.pop 2 with
    | (m, [a, b]) => some (m.push [truth (a ≠ 0 ∨ b ≠ 0)])
    | _ => none
  | .eq, m =>
    match m.pop 1 with
    | (m, [n]) =>
      let (m, b) := m.pop n.toNat
      let (m, a) := m.pop n.toNat
      some (m.push [truth (a = b)])
    | _ => none
  | .ne, m =>
    match m.pop 1 with
    | (m, [n]) =>
      let (m, b) := m.pop n.toNat
      let (m, a) := m.pop n.toNat
      some (m.push [truth (a ≠ b)])
    | _ => none
  | .eof, m => some (m.push [truth (device.eof m.input)])
  | .eol, m => some (m.push [truth (device.eol m.input)])
  | .get, m =>
    match m.pop 1 with
    | (m, [address]) =>
      (device.get m.input).map fun got => { m.write address [got.1.toNat] with input := got.2 }
    | _ => none
  | .getint, m =>
    match m.pop 1 with
    | (m, [address]) =>
      (device.getint m.input).map fun got => { m.write address [got.1] with input := got.2 }
    | _ => none
  | .geteol, m => (device.geteol m.input).map fun rest => { m with input := rest }
  | .put, m =>
    match m.pop 1 with
    | (m, [code]) => some { m with output := m.output ++ device.put code }
    | _ => none
  | .putint, m =>
    match m.pop 1 with
    | (m, [n]) => some { m with output := m.output ++ device.putint n }
    | _ => none
  | .puteol, m => some { m with output := m.output ++ device.puteol }
  | routine, m =>
    match m.pop 2 with
    | (m, [a, b]) => (routine.result? a b).map fun c => m.push [c]
    | _ => none

theorem Primitive.Acts.perform? {device : Device} {routine : Primitive} {m m' : Memory}
    (h : routine.Acts device m m') : routine.perform? device m = some m' := by
  cases h with
  | not m a => cases a <;> simp [Primitive.perform?, truth]
  | and m a b => cases a <;> cases b <;> simp [Primitive.perform?, truth]
  | or m a b => cases a <;> cases b <;> simp [Primitive.perform?, truth]
  | result m h =>
    cases routine
    case add | sub | mult | div | mod | lt | le | ge | gt => simp [Primitive.perform?, h]
    all_goals cases h
  | @eq m a b h | @ne m a b h =>
    have hpop : (m.push a).pop b.length = (m, a) := h ▸ m.pop_push a
    simp [Primitive.perform?, hpop]
  | eof => rfl
  | eol => rfl
  | get stack h => simp [Primitive.perform?, h, Memory.write_eq stack]
  | getint stack h => simp [Primitive.perform?, h, Memory.write_eq stack]
  | geteol h => simp [Primitive.perform?, h]
  | put m code => simp [Primitive.perform?]
  | putint m n => simp [Primitive.perform?]
  | puteol m => rfl

/-! ## Instructions -/

namespace Machine

/-- The next step. -/
def next (device : Device) : Step := fun code c => do
  let instruction ← code[c.address]?
  let m := c.memory
  match instruction with
  | ⟨.load, .sb, n, d⟩ => some ⟨c.address + 1, m.push (m.read d n)⟩
  | ⟨.loada, .sb, _, d⟩ | ⟨.loadl, _, _, d⟩ => some ⟨c.address + 1, m.push [d]⟩
  | ⟨.loadi, _, n, _⟩ =>
    match m.pop 1 with
    | (m, [address]) => some ⟨c.address + 1, m.push (m.read address n)⟩
    | _ => none
  | ⟨.store, .sb, n, d⟩ =>
    let (m, words) := m.pop n.toNat
    some ⟨c.address + 1, m.write d words⟩
  | ⟨.storei, _, n, _⟩ =>
    match m.pop 1 with
    | (m, [address]) =>
      let (m, words) := m.pop n.toNat
      some ⟨c.address + 1, m.write address words⟩
    | _ => none
  | ⟨.push, _, _, d⟩ => some ⟨c.address + 1, m.push (List.replicate d.toNat 0)⟩
  | ⟨.pop, _, n, d⟩ =>
    let (m, words) := m.pop n.toNat
    some ⟨c.address + 1, (m.pop d.toNat).1.push words⟩
  | ⟨.call, .pb, _, d⟩ => do
    let routine ← Primitive.ofDisplacement? d
    let m ← routine.perform? device m
    return ⟨c.address + 1, m⟩
  | ⟨.jump, _, _, d⟩ => some ⟨d.toNat, m⟩
  | ⟨.jumpif, _, n, d⟩ =>
    match m.pop 1 with
    | (m, [word]) => some ⟨if word = n then d.toNat else c.address + 1, m⟩
    | _ => none
  | _ => none

/-- The machine does what is relied on. -/
theorem conforms_next (device : Device) : Conforms device (next device) where
  load m before words behind hstack code address h := by
    simp [next, h, Memory.read_eq hstack]
  loada m d code address h := by
    simp [next, h]
  loadi m before words behind hstack code address h := by
    simp [next, h, Memory.read_eq hstack]
  loadl m d code address h := by
    simp [next, h]
  store m before old behind words hstack hlength code address h := by
    simp [next, h, Memory.write_eq hstack hlength]
  storei m before old behind words hstack hlength code address h := by
    simp [next, h, Memory.write_eq hstack hlength]
  push m d code address h :=
    ⟨List.replicate d 0, List.length_replicate, by simp [next, h]⟩
  pop m dropped words code address h := by
    simp [next, h]
  call m m' routine hacts code address h := by
    simp [next, h, Primitive.ofDisplacement?_displacement, hacts.perform?]
  jump m target code address h := by
    simp [next, h]
  jumpif m n word target code address h := by
    simp [next, h]

end Machine

end Triangle
