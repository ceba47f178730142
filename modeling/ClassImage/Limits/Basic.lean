/-!
Limits that bound an encoded program. Each starts at the most the format can
express; a set of limits is valid when the format can still express it and code
is possible at all.
-/

namespace ClassImage

structure Limits where
  registers : UInt32 := 65535
  instructions : UInt32 := 65535
  arguments : UInt32 := 255
  texts : UInt32 := 4294967295
  types : UInt32 := 65535
  fields : UInt32 := 65535
  methods : UInt32 := 65535
deriving DecidableEq

inductive LimitsFault where
  | missing
  | unreadable
  | tooManyRegisters (registers : UInt32)
  | tooManyArguments (arguments : UInt32)
  | zero (name : String)
deriving DecidableEq

def LimitsFault.message : LimitsFault → String
  | .missing => "Failed to read config file"
  | .unreadable => "Failed to parse config"
  | .tooManyRegisters registers =>
    s!"Invalid config: max_registers {registers.toNat} exceeds the register field width (65535)"
  | .tooManyArguments arguments =>
    s!"Invalid config: max_invoke_arguments {arguments.toNat} exceeds the argument count width (255)"
  | .zero name => s!"Invalid config: {name} must be positive"

namespace Limits

/-- The names of the limits in configuration text, in order. -/
def names : List String :=
  ["max_registers", "max_instructions_per_method", "max_invoke_arguments", "max_strings",
   "max_types", "max_field_refs", "max_method_refs"]

def values (limits : Limits) : List UInt32 :=
  [limits.registers, limits.instructions, limits.arguments, limits.texts, limits.types,
   limits.fields, limits.methods]

/-- Sets the limit with a given name; other names change nothing. -/
def set (limits : Limits) (name : String) (value : UInt32) : Limits :=
  match name with
  | "max_registers" => { limits with registers := value }
  | "max_instructions_per_method" => { limits with instructions := value }
  | "max_invoke_arguments" => { limits with arguments := value }
  | "max_strings" => { limits with texts := value }
  | "max_types" => { limits with types := value }
  | "max_field_refs" => { limits with fields := value }
  | "max_method_refs" => { limits with methods := value }
  | _ => limits

def validate (limits : Limits) : Except LimitsFault Unit := do
  if limits.registers > 65535 then throw (.tooManyRegisters limits.registers)
  if limits.arguments > 255 then throw (.tooManyArguments limits.arguments)
  if limits.registers = 0 then throw (.zero "max_registers")
  if limits.instructions = 0 then throw (.zero "max_instructions_per_method")

/-- One `name = value` line for each limit. -/
def toToml (limits : Limits) : String :=
  String.join ((names.zip limits.values).map fun (name, value) =>
    name ++ " = " ++ toString value.toNat ++ "\n")

/-- One object without blanks. -/
def toJson (limits : Limits) : String :=
  let members := (names.zip limits.values).map fun (name, value) =>
    "\"" ++ name ++ "\":" ++ toString value.toNat
  "\x7b" ++ ",".intercalate members ++ "\x7d"

end Limits

end ClassImage
