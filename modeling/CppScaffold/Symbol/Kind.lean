/-!
# Kinds of symbols

The kinds that a source of symbols reports, with the numbers under which they are exchanged.
-/

namespace CppScaffold

inductive SymbolKind where
  | file
  | module
  | namespaceScope
  | package
  | classType
  | method
  | property
  | field
  | constructor
  | enum
  | interface
  | function
  | plainVariable
  | constant
  | string
  | number
  | boolean
  | array
  | object
  | key
  | null
  | enumMember
  | struct
  | event
  | operator
  | typeParameter
  deriving DecidableEq, Repr, Inhabited

namespace SymbolKind

def all : List SymbolKind :=
  [file, module, namespaceScope, package, classType, method, property, field, constructor, enum, interface,
    function, plainVariable, constant, string, number, boolean, array, object, key, null, enumMember,
    struct, event, operator, typeParameter]

def toNat (k : SymbolKind) : Nat := all.idxOf k + 1

def ofInt? (i : Int) : Option SymbolKind :=
  if i ≤ 0 then none else all[i.toNat - 1]?

def isFunction : SymbolKind → Bool
  | function | method | constructor | operator => true
  | _ => false

def isClass : SymbolKind → Bool
  | classType | struct => true
  | _ => false

def isField : SymbolKind → Bool
  | field | property => true
  | _ => false

def isVariable : SymbolKind → Bool
  | plainVariable | constant => true
  | k => k.isField

end SymbolKind

end CppScaffold
