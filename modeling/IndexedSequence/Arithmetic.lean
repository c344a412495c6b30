import IndexedSequence.Fault

set_option autoImplicit false

namespace IndexedSequence

/-- How one size or position is taken from another: words wrap, unless a negative difference is checked for. -/
class Arithmetic where
  minus : UInt64 → UInt64 → Except Fault UInt64

export Arithmetic (minus)

namespace Arithmetic

instance wrapping : Arithmetic where
  minus a b := .ok (a - b)

@[reducible]
def checked : Arithmetic where
  minus a b := if b ≤ a then .ok (a - b) else .error .negativeDifference

/-- An arithmetic that is right wherever the difference is not negative. -/
class Exact [Arithmetic] : Prop where
  minus_of_le {a b : UInt64} : b ≤ a → minus a b = .ok (a - b)

export Exact (minus_of_le)

instance exact_wrapping : @Exact wrapping :=
  @Exact.mk wrapping fun _ => rfl

theorem exact_checked : @Exact checked :=
  @Exact.mk checked fun le => if_pos le

/-- An arithmetic whose differences, where it gives any, are those of words. -/
class Modular [Arithmetic] : Prop where
  eq_sub_of_minus {a b c : UInt64} : minus a b = .ok c → c = a - b

export Modular (eq_sub_of_minus)

instance modular_wrapping : @Modular wrapping :=
  @Modular.mk wrapping fun given => (Except.ok.inj given).symm

end Arithmetic

export Arithmetic (minus_of_le eq_sub_of_minus)

end IndexedSequence
