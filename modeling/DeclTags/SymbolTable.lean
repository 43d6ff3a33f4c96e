import DeclTags.Symbol

set_option autoImplicit false

/-! # Symbol tables

Symbols in the order of their arrival. A symbol is known by its index. -/

namespace DeclTags

structure SymbolTable where
  symbols : Array Symbol := #[]
  deriving DecidableEq, Repr, Inhabited

namespace SymbolTable

/-- The number of symbols, and the index of the next one. -/
def size (t : SymbolTable) : Nat := t.symbols.size

def isEmpty (t : SymbolTable) : Bool := t.symbols.isEmpty

def append (t : SymbolTable) (s : Symbol) : SymbolTable := ⟨t.symbols.push s⟩

/-- The symbol at an index. -/
def get? (t : SymbolTable) (index : Nat) : Option Symbol := t.symbols[index]?

def toList (t : SymbolTable) : List Symbol := t.symbols.toList

@[simp] theorem toList_append (t : SymbolTable) (s : Symbol) :
    (t.append s).toList = t.toList ++ [s] := by
  simp [append, toList]

@[simp] theorem length_toList (t : SymbolTable) : t.toList.length = t.size := by
  simp [toList, size]

end SymbolTable

end DeclTags
