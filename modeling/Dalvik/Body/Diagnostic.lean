import Dalvik.Kind

/-!
# Diagnostics

What the typing of a method could not settle.  A diagnostic is about one class
of values and tells how the class was resolved all the same.
-/

namespace Dalvik

/-- Why a class is reported: no kind satisfies its constraints, it has none, or
several kinds satisfy them. -/
inductive DiagnosticKind where
  | conflict
  | unconstrained
  | ambiguous
  deriving DecidableEq, Repr

def DiagnosticKind.text : DiagnosticKind → String
  | .conflict => "conflict"
  | .unconstrained => "unconstrained"
  | .ambiguous => "ambiguous"

inductive Finding where
  | mixedWidths
  | emptied (required left : KindSet) (declared : Bool)
  | noConstraint
  | severalKinds (kinds : KindSet)
  deriving DecidableEq, Repr

def Finding.text : Finding → String
  | .mixedWidths => "narrow and wide values merged"
  | .emptied required left declared =>
      required.text ++ " required where only " ++ left.text
        ++ (if declared then " (declared)" else "") ++ " remained"
  | .noConstraint => "no constraint recorded"
  | .severalKinds kinds => "still one of " ++ kinds.text

def Finding.kind : Finding → DiagnosticKind
  | .mixedWidths | .emptied _ _ _ => .conflict
  | .noConstraint => .unconstrained
  | .severalKinds _ => .ambiguous

structure Diagnostic where
  finding : Finding
  register : Reg
  addrs : List Addr
  resolved : Kind
  deriving DecidableEq, Repr

namespace Diagnostic

def kind (diagnostic : Diagnostic) : DiagnosticKind :=
  diagnostic.finding.kind

def isConflict (diagnostic : Diagnostic) : Bool :=
  diagnostic.kind == .conflict

def text (diagnostic : Diagnostic) : String :=
  diagnostic.kind.text ++ " on " ++ diagnostic.register.text
    ++ (if diagnostic.addrs.isEmpty then ""
      else " at " ++ ", ".intercalate (diagnostic.addrs.map Addr.text))
    ++ ": " ++ diagnostic.finding.text ++ ", resolved as " ++ diagnostic.resolved.text

end Diagnostic

end Dalvik
