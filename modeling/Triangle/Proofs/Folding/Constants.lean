import Triangle.Proofs.Folding.Relation
import Triangle.Proofs.Semantics.Evaluation

/-!
# Constants and the values they stand for

An operation on constants gives what the operator gives on values, and the literal that folding
writes for a constant is evaluated to it.  A constant does not tell a character from its code; the
operator on values does, so whenever the operation has a value at all the two are of one kind.
-/

namespace Triangle

variable {operator declaration : Standard} {name : Terminal} {a b : Value}

/-! ## Numbers read back -/

namespace Text

theorem decimalValue_toDigits (n : Nat) : decimalValue (Nat.toDigits 10 n) = n :=
  Nat.ofDigitChars_toDigits (by decide) (by decide)

theorem all_isDigit_toDigits (n : Nat) : (Nat.toDigits 10 n).all isDigit = true := by
  rw [List.all_eq_true]
  intro c hc
  have hdigit := Nat.isDigit_of_mem_toDigits (by decide) (by decide) hc
  simpa only [isDigit, Char.isDigit, Bool.and_eq_true, decide_eq_true_eq, Char.le_def, ge_iff_le]
    using hdigit

theorem readNatural?_toDigits (n : Nat) : readNatural? (Nat.toDigits 10 n) = some n := by
  rw [readNatural?, if_pos ⟨Nat.toDigits_ne_nil, all_isDigit_toDigits n⟩, decimalValue_toDigits]

/-- Digits are read without a sign. -/
theorem readInteger?_of_isDigit {digits : List Char} (h : digits.all isDigit = true) :
    readInteger? digits = (readNatural? digits).map Int.ofNat := by
  unfold readInteger?
  split
  · simp [isDigit] at h
  · simp [isDigit] at h
  · rfl

/-- An integer is read from its decimal text. -/
theorem readInteger?_toString (n : Int) : readInteger? (toString n).toList = some n := by
  cases n with
  | ofNat n =>
    have htext : (toString (Int.ofNat n)).toList = Nat.toDigits 10 n := by
      simp [toString, Int.repr, Nat.repr]
    rw [htext, readInteger?_of_isDigit (all_isDigit_toDigits n), readNatural?_toDigits]
    rfl
  | negSucc n =>
    have htext : (toString (Int.negSucc n)).toList = '-' :: Nat.toDigits 10 (n + 1) := by
      simp [toString, Int.repr, Nat.repr]
    rw [htext, readInteger?, readNatural?_toDigits]
    rfl

end Text

variable {n : Int} {operand : Option Constant}

theorem Literal.integerValue?_toString (h : -Machine.maxint ≤ n ∧ n ≤ Machine.maxint) :
    integerValue? (toString n) = some n := by
  have hfits : (Word.fits n && decide (n ≤ Machine.maxint)) = true := by
    simp only [Bool.and_eq_true, decide_eq_true_eq, Word.fits_iff]
    simp only [Machine.maxint, Word.least, Word.greatest] at h ⊢
    omega
  rw [integerValue?, Text.readInteger?_toString, Option.filter_some, if_pos hfits]

/-! ## What constants stand for -/

namespace Constant

/-- A constant stands for a value. -/
def Denotes : Constant → Value → Prop
  | int n, value => value = .int n ∨ value = .char n
  | bool b, value => value = .bool b

/-- The value that the literal for a constant has. -/
def value : Constant → Value
  | int n => .int n
  | bool b => .bool b

/-- The literal for a constant can be read back. -/
def InRange : Constant → Prop
  | int n => -Machine.maxint ≤ n ∧ n ≤ Machine.maxint
  | bool _ => True

end Constant

variable {device : Device} {A : Annotations} {env : Environment} {s : State} {fuel : Nat}

/-- What is found by an operator is found by folding as well. -/
theorem Annotations.standardOf?_of_operator? {terminal : Terminal}
    (h : A.operator? terminal = some operator) : A.standardOf? terminal = some operator := by
  unfold Annotations.operator? at h
  split at h
  · rename_i hreferent
    rw [Annotations.standardOf?, hreferent]
    exact h
  · cases h

/-- The name of a truth value stands for it, whatever it is spelled like. -/
theorem Annotations.standardOf?_of_denotee? {denotee : Denotee}
    (hname : A.standardOf? name = some declaration) (h : A.denotee? env name = some denotee) :
    declaration.denotee? = some denotee := by
  unfold Annotations.standardOf? at hname
  unfold Annotations.denotee? at h
  split at hname
  · rename_i hreferent
    rw [hreferent] at h
    rw [← Option.some.inj hname]
    exact h
  · cases hname
  · rename_i hreferent
    rw [hreferent] at h
    cases h

/-- The place of a standard constant. -/
theorem Vname.identify_standard {m : Mark} {value : Value} {place : Place}
    (hname : A.standardOf? name = some declaration)
    (hvalue : declaration.denotee? = some (.value value))
    (h : (Vname.simple m name).identify device A fuel env s = some place) :
    place = ⟨.value value, []⟩ := by
  obtain _ | fuel := fuel
  · cases h
  · rw [Vname.identify] at h
    split at h
    · rename_i hdenotee
      have heq := Annotations.standardOf?_of_denotee? hname hdenotee
      rw [hvalue] at heq
      cases heq
      exact (Option.some.inj h).symm
    · rename_i hdenotee
      have heq := Annotations.standardOf?_of_denotee? hname hdenotee
      rw [hvalue] at heq
      cases heq
    · cases h

theorem State.fetch_value {value : Value} (s : State) (h : value.defined = true) :
    s.fetch ⟨.value value, []⟩ = some value := by
  simp [State.fetch, State.contents, Value.part, h]

/-- An expression that is known to be constant is evaluated to the constant. -/
theorem Expression.denotes_of_constant? {e : Expression} {constant : Constant} {value : Value}
    (hconstant : e.constant? A = some constant)
    (h : e.evaluate device A fuel env s = some value) : constant.Denotes value := by
  obtain _ | fuel := fuel
  · cases h
  · unfold Expression.constant? at hconstant
    split at hconstant
    · simp only [Expression.evaluate, Option.bind_eq_bind, Option.bind_eq_some_iff] at h
      obtain ⟨n, hn, h⟩ := h
      rw [hn] at hconstant
      cases hconstant
      unfold Value.integer? at h
      split at h
      · exact .inl (Option.some.inj h).symm
      · cases h
    · simp only [Expression.evaluate, Option.bind_eq_bind, Option.bind_eq_some_iff] at h
      obtain ⟨c, hc, h⟩ := h
      rw [hc] at hconstant
      cases hconstant
      exact .inr (Option.some.inj h).symm
    · simp only [Expression.evaluate, Option.bind_eq_bind, Option.bind_eq_some_iff] at h
      obtain ⟨place, hplace, h⟩ := h
      split at hconstant
      · rename_i hname
        cases hconstant
        rw [Vname.identify_standard hname rfl hplace, s.fetch_value rfl] at h
        exact (Option.some.inj h).symm
      · rename_i hname
        cases hconstant
        rw [Vname.identify_standard hname rfl hplace, s.fetch_value rfl] at h
        exact (Option.some.inj h).symm
      · cases hconstant
    · cases hconstant

/-! ## Operations -/

theorem Standard.bool_of_and {value : Value} (h : binary? and_ a b = some value) :
    ∃ c d, a = .bool c ∧ b = .bool d ∧ value = .bool (c && d) := by
  cases a <;> cases b <;> cases h
  exact ⟨_, _, rfl, rfl, rfl⟩

theorem Standard.bool_of_or {value : Value} (h : binary? or_ a b = some value) :
    ∃ c d, a = .bool c ∧ b = .bool d ∧ value = .bool (c || d) := by
  cases a <;> cases b <;> cases h
  exact ⟨_, _, rfl, rfl, rfl⟩

namespace Constant

variable {a b value : Value} {left right constant : Constant}

theorem integer?_eq_some_iff :
    Value.integer? n = some value ↔ (-Machine.maxint ≤ n ∧ n ≤ Machine.maxint) ∧
      value = .int n := by
  unfold Value.integer?
  split
  · rename_i h
    simp [h, eq_comm]
  · rename_i h
    simp [h]

theorem inRange_eq_value_iff :
    inRange n = .value constant ↔
      (-Machine.maxint ≤ n ∧ n ≤ Machine.maxint) ∧ constant = .int n := by
  unfold inRange
  split
  · rename_i h
    simp only [Bool.and_eq_true, decide_eq_true_eq] at h
    simp [h, eq_comm]
  · rename_i h
    simp only [Bool.and_eq_true, decide_eq_true_eq] at h
    simp [h]

/-- Values of one kind are the same if the constants are. -/
theorem Denotes.equal? {same : Bool} (ha : left.Denotes a) (hb : right.Denotes b)
    (h : a.equal? b = some same) : same = decide (left = right) := by
  cases left with
  | int m =>
    cases right with
    | int n =>
      obtain rfl | rfl := ha <;> obtain rfl | rfl := hb <;> simp [Value.equal?] at h <;> simp [h]
    | bool d =>
      obtain rfl := hb
      obtain rfl | rfl := ha <;> cases h
  | bool c =>
    obtain rfl := ha
    cases right with
    | int n => obtain rfl | rfl := hb <;> cases h
    | bool d =>
      obtain rfl := hb
      simp [Value.equal?] at h
      simp [h]

/-- Operators on integers have no result on characters. -/
theorem Denotes.int_of_binary? {m : Int} (ha : (int m).Denotes a) (hb : (int n).Denotes b)
    (hoperator : operator ≠ .eq ∧ operator ≠ .ne) (h : operator.binary? a b = some value) :
    a = .int m ∧ b = .int n := by
  obtain rfl | rfl := ha <;> obtain rfl | rfl := hb
  · exact ⟨rfl, rfl⟩
  all_goals
    unfold Standard.binary? at h
    split at h <;> simp_all

/-- An operation on constants gives what it gives on the values. -/
theorem value_of_operate (h : operate operator left right = .value constant) (ha : left.Denotes a)
    (hb : right.Denotes b) (hvalue : operator.binary? a b = some value) :
    value = constant.value ∧ constant.InRange := by
  unfold operate at h
  split at h
  case h_1 | h_2 =>
    obtain rfl := ha
    obtain rfl := hb
    cases h
    exact ⟨(Option.some.inj hvalue).symm, trivial⟩
  -- equality is the one operation on constants of either type
  case h_3 | h_4 =>
    cases h
    obtain ⟨same, hsame, rfl⟩ := Option.map_eq_some_iff.1 hvalue
    rw [ha.equal? hb hsame]
    exact ⟨by simp [Constant.value], trivial⟩
  case h_5 | h_6 | h_7 | h_8 =>
    obtain ⟨rfl, rfl⟩ := ha.int_of_binary? hb (by decide) hvalue
    cases h
    exact ⟨(Option.some.inj hvalue).symm, trivial⟩
  -- sums, differences and products are folded where they do not overflow
  case h_9 | h_10 | h_11 =>
    obtain ⟨rfl, rfl⟩ := ha.int_of_binary? hb (by decide) hvalue
    obtain ⟨hrange, rfl⟩ := inRange_eq_value_iff.1 h
    exact ⟨(integer?_eq_some_iff.1 hvalue).2, hrange⟩
  case h_12 =>
    obtain ⟨rfl, rfl⟩ := ha.int_of_binary? hb (by decide) hvalue
    split at h
    · cases h
    · rename_i hzero
      obtain ⟨hrange, rfl⟩ := inRange_eq_value_iff.1 h
      rw [Standard.binary?, if_neg hzero] at hvalue
      exact ⟨(Option.some.inj hvalue).symm, hrange⟩
  case h_13 =>
    obtain ⟨rfl, rfl⟩ := ha.int_of_binary? hb (by decide) hvalue
    split at h
    · cases h
    · rename_i hzero
      split at h
      · obtain ⟨hrange, rfl⟩ := inRange_eq_value_iff.1 h
        rw [Standard.binary?, if_neg hzero] at hvalue
        exact ⟨(Option.some.inj hvalue).symm, hrange⟩
      · cases h
  case h_14 => cases h

theorem cases_of_absorbs (h : absorbs operator operand = true) :
    (operator = .and_ ∧ operand = some (.bool false)) ∨
      (operator = .or_ ∧ operand = some (.bool true)) := by
  unfold absorbs at h
  split at h
  · exact .inl ⟨rfl, rfl⟩
  · exact .inr ⟨rfl, rfl⟩
  · cases h

/-- A truth value that decides the result of `/\` or `\/` does so whatever the other operand is
evaluated to. -/
theorem value_of_absorbs (h : absorbs operator operand = true)
    (hab : (∀ c, operand = some c → c.Denotes a) ∨ ∀ c, operand = some c → c.Denotes b)
    (hvalue : operator.binary? a b = some value) : value = .bool (operator = .or_) := by
  obtain ⟨rfl, rfl⟩ | ⟨rfl, rfl⟩ := cases_of_absorbs h
  · obtain ⟨c, d, rfl, rfl, rfl⟩ := Standard.bool_of_and hvalue
    obtain hc | hd := hab
    · cases hc _ rfl
      rfl
    · cases hd _ rfl
      rw [Bool.and_false]
      rfl
  · obtain ⟨c, d, rfl, rfl, rfl⟩ := Standard.bool_of_or hvalue
    obtain hc | hd := hab
    · cases hc _ rfl
      rfl
    · cases hd _ rfl
      rw [Bool.or_true]
      rfl

/-- An operator on operands that may be constant gives what it gives on the values. -/
theorem value_of_binary {left right : Option Constant}
    (h : binary operator left right = .value constant) (ha : ∀ c, left = some c → c.Denotes a)
    (hb : ∀ c, right = some c → c.Denotes b) (hvalue : operator.binary? a b = some value) :
    value = constant.value ∧ constant.InRange := by
  unfold binary at h
  split at h
  · rename_i habsorbs
    cases h
    obtain habsorbs | habsorbs := Bool.or_eq_true_iff.1 habsorbs
    · exact ⟨value_of_absorbs habsorbs (.inl ha) hvalue, trivial⟩
    · exact ⟨value_of_absorbs habsorbs (.inr hb) hvalue, trivial⟩
  · split at h
    · exact value_of_operate h (ha _ rfl) (hb _ rfl) hvalue
    · cases h

theorem value_of_unary (h : unary operator operand = .value constant)
    (ha : ∀ c, operand = some c → c.Denotes a) (hvalue : operator.unary? a = some value) :
    value = constant.value ∧ constant.InRange := by
  unfold unary at h
  split at h
  · obtain rfl := ha _ rfl
    cases h
    exact ⟨(Option.some.inj hvalue).symm, trivial⟩
  · cases h

/-- The literal for a constant is evaluated to it. -/
theorem Literal.evaluate {e : Expression} (h : constant.Literal A e) (hrange : constant.InRange)
    (device : Device) (fuel : Nat) (env : Environment) (s : State) :
    e.evaluate device A (fuel + 2) env s = some constant.value := by
  cases constant with
  | int n =>
    obtain ⟨m, terminal, rfl, -⟩ := h
    rw [Expression.evaluate, Literal.integerValue?_toString hrange]
    exact integer?_eq_some_iff.2 ⟨hrange, rfl⟩
  | bool b =>
    obtain ⟨m, vname, name, rfl, -, -, hname⟩ := h
    have hdenotee : A.denotee? env name = some (.value (.bool b)) := by
      rw [Annotations.denotee?, hname]
      cases b <;> rfl
    rw [Expression.evaluate, Vname.identify, hdenotee]
    exact s.fetch_value rfl

end Constant

end Triangle
