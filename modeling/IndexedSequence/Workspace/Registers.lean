set_option autoImplicit false

namespace IndexedSequence

/-- The names that were written, in the order of their first writing, each with its latest value. -/
structure Registers (σ : Type) where
  entries : List (String × σ)

namespace Registers

variable {σ : Type}

def empty : Registers σ := ⟨[]⟩

def find? (name : String) : List (String × σ) → Option σ
  | [] => none
  | (known, value) :: rest => if known = name then some value else find? name rest

def get (registers : Registers σ) (default : σ) (name : String) : σ :=
  (find? name registers.entries).getD default

def setEntry (name : String) (value : σ) : List (String × σ) → List (String × σ)
  | [] => [(name, value)]
  | (known, old) :: rest =>
    if known = name then (name, value) :: rest else (known, old) :: setEntry name value rest

def set (registers : Registers σ) (name : String) (value : σ) : Registers σ :=
  ⟨setEntry name value registers.entries⟩

def keep (registers : Registers σ) (name : Option String) (value : σ) : Registers σ :=
  match name with
  | none => registers
  | some name => registers.set name value

end Registers

end IndexedSequence
