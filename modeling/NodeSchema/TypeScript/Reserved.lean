set_option autoImplicit false

/-! The words that cannot name a function or a parameter in generated TypeScript: its
keywords, contextual keywords and the names of its primitive types. A constructor or
parameter whose natural name is one of them is written with trailing underscores. -/

namespace NodeSchema.TypeScript

def reservedWords : List String :=
  ["any", "as", "async", "await", "bigint", "boolean", "break", "case", "catch", "class",
    "const", "continue", "debugger", "declare", "default", "delete", "do", "else", "enum",
    "export", "extends", "false", "finally", "for", "from", "function", "get", "if",
    "implements", "import", "in", "infer", "instanceof", "interface", "is", "keyof", "let",
    "module", "namespace", "never", "new", "null", "number", "object", "of", "package",
    "private", "protected", "public", "readonly", "require", "return", "set", "static",
    "string", "super", "switch", "symbol", "this", "throw", "true", "try", "type", "typeof",
    "undefined", "unique", "unknown", "var", "void", "while", "with", "yield"]

def isReserved (word : String) : Bool := reservedWords.contains word

end NodeSchema.TypeScript

namespace NodeSchema.TypeScript

/-- Appends underscores to a name while `blocked` holds of it, at most `fuel` times. -/
def escapeName (blocked : String → Bool) (name : String) : Nat → String
  | 0 => name
  | fuel + 1 => if blocked name then escapeName blocked (name ++ "_") fuel else name

/-- A name that is neither reserved nor in `taken`, made by appending underscores. Names that
differ in their number of trailing underscores differ, and only the bare name can be reserved,
so two more tries than there are taken names suffice. -/
def freshName (taken : List String) (name : String) : String :=
  escapeName (fun n => isReserved n || taken.contains n) name (taken.length + 2)

end NodeSchema.TypeScript
