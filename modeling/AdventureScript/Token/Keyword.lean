/-!
The reserved words of the script language.
-/
namespace AdventureScript

inductive Keyword where
  | kwVoid | kwChar | kwShort | kwInt | kwLong | kwFloat | kwString | kwNull | kwThis | kwIf
  | kwElse | kwFor | kwWhile | kwDo | kwSwitch | kwCase | kwDefault | kwBreak | kwContinue
  | kwReturn | kwFallthrough | kwStruct | kwEnum | kwExtends | kwAttribute | kwManaged
  | kwBuiltin | kwAutoptr | kwInternalstring | kwConst | kwReadonly | kwProtected
  | kwWriteprotected | kwStatic | kwImport | kwTryImport | kwExport | kwNoloopcheck | kwNew
  deriving DecidableEq, Repr, Inhabited

namespace Keyword

def all : List Keyword :=
  [.kwVoid, .kwChar, .kwShort, .kwInt, .kwLong, .kwFloat, .kwString, .kwNull, .kwThis, .kwIf,
   .kwElse, .kwFor, .kwWhile, .kwDo, .kwSwitch, .kwCase, .kwDefault, .kwBreak, .kwContinue,
   .kwReturn, .kwFallthrough, .kwStruct, .kwEnum, .kwExtends, .kwAttribute, .kwManaged,
   .kwBuiltin, .kwAutoptr, .kwInternalstring, .kwConst, .kwReadonly, .kwProtected,
   .kwWriteprotected, .kwStatic, .kwImport, .kwTryImport, .kwExport, .kwNoloopcheck, .kwNew]

def spelling : Keyword → String
  | .kwVoid => "void"
  | .kwChar => "char"
  | .kwShort => "short"
  | .kwInt => "int"
  | .kwLong => "long"
  | .kwFloat => "float"
  | .kwString => "string"
  | .kwNull => "null"
  | .kwThis => "this"
  | .kwIf => "if"
  | .kwElse => "else"
  | .kwFor => "for"
  | .kwWhile => "while"
  | .kwDo => "do"
  | .kwSwitch => "switch"
  | .kwCase => "case"
  | .kwDefault => "default"
  | .kwBreak => "break"
  | .kwContinue => "continue"
  | .kwReturn => "return"
  | .kwFallthrough => "fallthrough"
  | .kwStruct => "struct"
  | .kwEnum => "enum"
  | .kwExtends => "extends"
  | .kwAttribute => "attribute"
  | .kwManaged => "managed"
  | .kwBuiltin => "builtin"
  | .kwAutoptr => "autoptr"
  | .kwInternalstring => "internalstring"
  | .kwConst => "const"
  | .kwReadonly => "readonly"
  | .kwProtected => "protected"
  | .kwWriteprotected => "writeprotected"
  | .kwStatic => "static"
  | .kwImport => "import"
  | .kwTryImport => "_tryimport"
  | .kwExport => "export"
  | .kwNoloopcheck => "noloopcheck"
  | .kwNew => "new"

def ofSpelling? (text : String) : Option Keyword :=
  all.find? (·.spelling = text)

def isPrimitiveType : Keyword → Bool
  | .kwVoid | .kwChar | .kwShort | .kwInt | .kwLong | .kwFloat | .kwString => true
  | _ => false

end Keyword
end AdventureScript
