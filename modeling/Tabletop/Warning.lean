import Tabletop.Text.Decimal

/-!
# Warnings

What a completed roll reports beside its outcome.
-/

namespace Tabletop

/-- A condition that does not stop a roll. -/
inductive Warning where
  /-- some die of this size exploded until the cap stopped it -/
  | explosionCapExceeded (sides cap : UInt32)
  /-- a dice modifier could not be read and added nothing -/
  | inertModifier (name reason : String)
  deriving DecidableEq, Repr

/-- The wording of a warning. -/
def Warning.message : Warning → String
  | explosionCapExceeded sides cap =>
    "explosion cap of " ++ Decimal.text cap.toNat ++ " reached on a d" ++ Decimal.text sides.toNat
  | inertModifier name reason => "modifier '" ++ name ++ "' ignored: " ++ reason

end Tabletop
