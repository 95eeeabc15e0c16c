import Mathlib.Logic.Relation
import Triangle.Machine.CodeStore
import Triangle.Machine.Primitive
import Triangle.Proofs.Semantics.Evaluation

/-!
# Running code

The machine that code is made for is no part of the compiler, so it is a parameter here: a function
that takes one step in some code.  `Machine.Conforms` says what is relied on, one item for each
instruction, about the instructions that occur in code without routines of its own.  Nothing is said
about what a machine does with a stack that is too short, with an address outside of it, or with a
result that is no word.

Data is addressed from the bottom of the stack, which is where the register of the main program
points.  So an item about memory splits the stack at an address: what is before it, the words that
are meant, and what is behind them.
-/

namespace Triangle

namespace Machine

/-- What a machine works on. -/
structure Memory where
  /-- The words on the stack, the top last. -/
  stack : List Int
  /-- What is left to read. -/
  input : List Char
  /-- What was written. -/
  output : List Char

/-- More words on the stack. -/
def Memory.push (m : Memory) (words : List Int) : Memory := { m with stack := m.stack ++ words }

/-- Where a machine is in the code, and its memory. -/
structure Configuration where
  address : Nat
  memory : Memory

/-- One step in some code, if there is one. -/
abbrev Step := List Instruction → Configuration → Option Configuration

/-- The word for a truth value. -/
def truth (b : Bool) : Int := if b then 1 else 0

theorem truth_inj {a b : Bool} : truth a = truth b ↔ a = b := by
  cases a <;> cases b <;> decide

/-- A number, if it is a word. -/
def word? (n : Int) : Option Int := if Word.fits n then some n else none

theorem word?_of_le {n : Int} (hleast : -Word.greatest ≤ n) (hgreatest : n ≤ Word.greatest) :
    word? n = some n := by
  refine if_pos (Word.fits_iff.2 ⟨?_, hgreatest⟩)
  simp only [Word.least, Word.greatest] at *
  omega

end Machine

/-! ## Primitive routines -/

open Machine in
/-- What an arithmetic routine leaves for two words, or a comparison of integers. -/
def Primitive.result? : Primitive → Int → Int → Option Int
  | .add, a, b => word? (a + b)
  | .sub, a, b => word? (a - b)
  | .mult, a, b => word? (a * b)
  | .div, a, b => if b = 0 then none else word? (a.tdiv b)
  | .mod, a, b => if b = 0 then none else word? (a.tmod b)
  | .lt, a, b => some (truth (a < b))
  | .le, a, b => some (truth (a ≤ b))
  | .ge, a, b => some (truth (b ≤ a))
  | .gt, a, b => some (truth (b < a))
  | _, _, _ => none

open Machine in
/-- What a call of a primitive routine does to the memory. -/
inductive Primitive.Acts (device : Device) : Primitive → Memory → Memory → Prop
  | not (m : Memory) (a : Bool) : Acts device .not (m.push [truth a]) (m.push [truth !a])
  | and (m : Memory) (a b : Bool) :
    Acts device .and (m.push [truth a, truth b]) (m.push [truth (a && b)])
  | or (m : Memory) (a b : Bool) :
    Acts device .or (m.push [truth a, truth b]) (m.push [truth (a || b)])
  | result (m : Memory) {routine : Primitive} {a b c : Int} (h : routine.result? a b = some c) :
    Acts device routine (m.push [a, b]) (m.push [c])
  /-- Two values of one size, which lies above them. -/
  | eq (m : Memory) {a b : List Int} (h : a.length = b.length) :
    Acts device .eq (((m.push a).push b).push [(b.length : Int)]) (m.push [truth (a = b)])
  | ne (m : Memory) {a b : List Int} (h : a.length = b.length) :
    Acts device .ne (((m.push a).push b).push [(b.length : Int)]) (m.push [truth !(a = b)])
  | eof (m : Memory) : Acts device .eof m (m.push [truth (device.eof m.input)])
  | eol (m : Memory) : Acts device .eol m (m.push [truth (device.eol m.input)])
  /-- What is read goes to the address on top. -/
  | get {m : Memory} {before behind : List Int} {old : Int} {c : Char} {rest : List Char}
    (stack : m.stack = before ++ [old] ++ behind) (h : device.get m.input = some (c, rest)) :
    Acts device .get (m.push [(before.length : Int)])
      { m with stack := before ++ [(c.toNat : Int)] ++ behind, input := rest }
  | getint {m : Memory} {before behind : List Int} {old n : Int} {rest : List Char}
    (stack : m.stack = before ++ [old] ++ behind) (h : device.getint m.input = some (n, rest)) :
    Acts device .getint (m.push [(before.length : Int)])
      { m with stack := before ++ [n] ++ behind, input := rest }
  | geteol {m : Memory} {rest : List Char} (h : device.geteol m.input = some rest) :
    Acts device .geteol m { m with input := rest }
  | put (m : Memory) (code : Int) :
    Acts device .put (m.push [code]) { m with output := m.output ++ device.put code }
  | putint (m : Memory) (n : Int) :
    Acts device .putint (m.push [n]) { m with output := m.output ++ device.putint n }
  | puteol (m : Memory) :
    Acts device .puteol m { m with output := m.output ++ device.puteol }

/-! ## Instructions -/

namespace Machine

/-- An instruction takes one memory to another, and control falls through it. -/
def Executes (step : Step) (instruction : Instruction) (m m' : Memory) : Prop :=
  ∀ ⦃code : List Instruction⦄ ⦃address : Nat⦄, code[address]? = some instruction →
    step code ⟨address, m⟩ = some ⟨address + 1, m'⟩

/-- What is relied on about a machine. -/
structure Conforms (device : Device) (step : Step) : Prop where
  /-- Words at an address are pushed. -/
  load : ∀ (m : Memory) (before words behind : List Int), m.stack = before ++ words ++ behind →
    Executes step ⟨.load, .sb, words.length, before.length⟩ m (m.push words)
  /-- An address is pushed. -/
  loada : ∀ (m : Memory) (d : Int), Executes step ⟨.loada, .sb, 0, d⟩ m (m.push [d])
  /-- Words at the address on top are pushed in its place. -/
  loadi : ∀ (m : Memory) (before words behind : List Int), m.stack = before ++ words ++ behind →
    Executes step ⟨.loadi, .cb, words.length, 0⟩ (m.push [(before.length : Int)]) (m.push words)
  /-- A number is pushed. -/
  loadl : ∀ (m : Memory) (d : Int), Executes step ⟨.loadl, .cb, 0, d⟩ m (m.push [d])
  /-- The topmost words go to an address. -/
  store : ∀ (m : Memory) (before old behind words : List Int), m.stack = before ++ old ++ behind →
    old.length = words.length →
    Executes step ⟨.store, .sb, words.length, before.length⟩ (m.push words)
      { m with stack := before ++ words ++ behind }
  /-- The words below the address on top go there. -/
  storei : ∀ (m : Memory) (before old behind words : List Int), m.stack = before ++ old ++ behind →
    old.length = words.length →
    Executes step ⟨.storei, .cb, words.length, 0⟩ ((m.push words).push [(before.length : Int)])
      { m with stack := before ++ words ++ behind }
  /-- Room is made, and nothing is said about what is in it. -/
  push : ∀ (m : Memory) (d : Nat) (code : List Instruction) (address : Nat),
    code[address]? = some ⟨.push, .cb, 0, d⟩ →
    ∃ words : List Int, words.length = d ∧
      step code ⟨address, m⟩ = some ⟨address + 1, m.push words⟩
  /-- Words below the topmost ones are dropped. -/
  pop : ∀ (m : Memory) (dropped words : List Int),
    Executes step ⟨.pop, .cb, words.length, dropped.length⟩ ((m.push dropped).push words)
      (m.push words)
  call : ∀ (m m' : Memory) (routine : Primitive), routine.Acts device m m' →
    Executes step ⟨.call, .pb, Register.sb.code, routine.displacement⟩ m m'
  jump : ∀ (m : Memory) (target : Nat) (code : List Instruction) (address : Nat),
    code[address]? = some ⟨.jump, .cb, 0, target⟩ → step code ⟨address, m⟩ = some ⟨target, m⟩
  /-- Control falls through unless the word on top is the one that is given. -/
  jumpif : ∀ (m : Memory) (n word : Int) (target : Nat) (code : List Instruction) (address : Nat),
    code[address]? = some ⟨.jumpif, .cb, n, target⟩ →
    step code ⟨address, m.push [word]⟩ = some ⟨if word = n then target else address + 1, m⟩

/-! ## Runs -/

/-- A machine comes from one configuration to another in some number of steps. -/
abbrev Reaches (step : Step) (code : List Instruction) : Configuration → Configuration → Prop :=
  Relation.ReflTransGen fun c c' => step code c = some c'

/-- Run from the start, with an empty stack and some input, a machine comes to an instruction that
stops it. -/
def Halts (step : Step) (code : List Instruction) (input : List Char) (m : Memory) : Prop :=
  ∃ address, Reaches step code ⟨0, [], input, []⟩ ⟨address, m⟩ ∧
    code[address]? = some ⟨.halt, .cb, 0, 0⟩

/-- Instructions take one memory to another wherever they are, and control falls through them. -/
def Performs (step : Step) (block : List Instruction) (m m' : Memory) : Prop :=
  ∀ ⦃code : List Instruction⦄ ⦃address : Nat⦄,
    (∀ (i : Nat) instruction, block[i]? = some instruction →
      code[address + i]? = some instruction) →
    Reaches step code ⟨address, m⟩ ⟨address + block.length, m'⟩

section

variable {step : Step} {block block' : List Instruction} {m m' m'' : Memory}

theorem Performs.nil (m : Memory) : Performs step [] m m :=
  fun _ _ _ => .refl

theorem Executes.performs {instruction : Instruction} (h : Executes step instruction m m') :
    Performs step [instruction] m m' :=
  fun _ _ hcode => .single (h (hcode 0 instruction rfl))

theorem Performs.append (h : Performs step block m m') (h' : Performs step block' m' m'') :
    Performs step (block ++ block') m m'' := by
  intro code address hcode
  have hc := h fun i instruction hi =>
    hcode i instruction (by rw [List.getElem?_append_left (List.getElem?_eq_some_iff.1 hi).1, hi])
  have hcode' : ∀ (i : Nat) instruction, block'[i]? = some instruction →
      code[address + block.length + i]? = some instruction := fun i instruction hi => by
    rw [Nat.add_assoc]
    exact hcode (block.length + i) instruction (by
      rw [List.getElem?_append_right (Nat.le_add_right _ _), Nat.add_sub_cancel_left, hi])
  have hc' := h' hcode'
  rw [List.length_append, ← Nat.add_assoc]
  exact hc.trans hc'

/-- The first step of a run is the only one that there is. -/
theorem Reaches.of_step {code : List Instruction} {x y z : Configuration}
    (h : Reaches step code x z) (hne : x ≠ z) (hstep : step code x = some y) :
    Reaches step code y z := by
  obtain rfl | ⟨y', hstep', h⟩ := h.cases_head
  · exact absurd rfl hne
  · rw [hstep] at hstep'
    cases hstep'
    exact h

end

end Machine

end Triangle
