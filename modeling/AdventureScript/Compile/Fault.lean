import AdventureScript.Diagnostic
import AdventureScript.Symbols
import AdventureScript.Script.Basic

/-!
What can be wrong with a program, as causes: one constructor for each, the class of error it belongs
to, and its text.
-/
namespace AdventureScript

inductive Fault where
  -- Tokens
  | expectedToken (wanted found : String)
  | expectedIdentifier (found : String)
  -- Names
  | undeclared (name : String)
  | alreadyDefinedAs (name kind : String)
  | notAStruct (name : String)
  -- Types
  | oldStringType
  | notAType (name : String)
  | undeclaredType (name : String)
  | expectedType (found : String)
  | pointerToUnmanaged (name? : Option String) (type : String)
  | arrayOfVoid
  | dynamicArrayOfStruct (name? : Option String) (type : String)
  | arrayOfDynamicArrays
  | arraySizeTooSmall (size : Int32)
  | arraySizeNotConstant
  | variableOfVoid (name : String)
  | managedInstance (name type : String)
  | onlyForwardDeclared (type : String)
  -- Functions
  | paramOfStaticArray (number : Nat)
  | paramOfVoid (number : Nat)
  | paramOfStruct (number : Nat)
  | nullDefault (number : Nat)
  | stringDefault (number : Nat)
  | badDefault (number : Nat) (type : String)
  | importWithBody (name : String)
  | readonlyFunction
  | returnOfStruct (name : String)
  | returnOfStaticArray (name : String)
  | undeclaredMember (name struct : String)
  | alreadyComponent (name struct : String)
  | mismatch (difference : Mismatch)
  | bodyTwice (name : String) (line : Nat)
  | importedFunction (name : String)
  | calledAsImport (name : String)
  | importOfDefined (name : String) (line : Nat)
  | paramTwice (name : String)
  | endInBody (name : String)
  | neverDefined (name : String)
  -- Structs
  | misplacedOnStruct (qualifier : String)
  | autoptrOfUnmanaged
  | alreadyEnum (name : String)
  | structTwice (name : String)
  | forwardDeclaredAs (name : String) (managed : Bool)
  | forwardOfUnmanaged
  | endInStruct (name : String)
  | extendsMixed (name parent : String) (managed parentManaged : Bool)
  | misplacedInStruct (qualifier : String)
  | memberQualifier
  | accessTwice
  | attributeWithParams
  | componentTwice (struct name kind : String)
  | staticField (name : String)
  | importedField (name : String)
  | fieldOfManaged (name type : String)
  | fieldOfIncomplete (name type : String)
  | memberFunctionAccess (name : String)
  | attributeAccess
  | attributeOfStruct (name : String)
  -- Other declarations
  | qualifierTwice (qualifier : String)
  | onlyOnStruct (qualifier : String)
  | onlyInStruct (qualifier : String)
  | qualifiedEnum
  | enumValue (name : String)
  | qualifiedExport
  | noLoopCheckVariable
  | globalTwice (name : String) (line : Nat)
  | usedAsImport (name : String)
  | importedVariable (name : String)
  | importWithValue
  | pointerWithValue (name : String)
  | wholeWithValue (name : String)
  | expectedStringValue (name : String)
  | stringValueTooLong (name : String)
  | valueNotConstant (name : String)
  | expectedFloatValue (name : String) (found : Int32)
  | exportWithoutBody (name : String)
  | exportOfImport (name : String)
  | exportOfOther (name : String)
  | script (error : ScriptError)
  -- Statements
  | labelOutsideSwitch (label : String)
  | elseWithoutIf
  | endInBlock
  | expectedReturnValue (type : String)
  | valueFromVoid
  | breakOutside
  | continueOutside
  | fallthroughOutside
  | expectedLoopSemicolon (found : String)
  | switchType (type : String)
  | endInSwitch
  | expectedCase (found : String)
  | declarationInSwitch
  | emptyCase
  | caseTwice (value : String)
  | caseType (value type : String)
  | defaultTwice
  | localTwice (name : String)
  | localIsParam (name : String)
  | localIsType (name : String)
  | expectedValue (name found : String)
  -- Operators and conversions
  | expectedAfter (operator : String)
  | incrementInside (operator : String)
  | operatorType (operator type : String)
  | fold (error : FoldError)
  | missingRightSide (operator : String)
  | expectedOperator (found : String)
  | cannotConvert (source target : String)
  | cannotAssign (source target : String)
  | voidInExpression
  | voidHere
  | operatorOnStrings (operator : String)
  | operatorOnFloats (operator : String)
  | operatorOnPointers (operator : String)
  | conditionType (type : String)
  | emptySecondArm
  | emptyThirdArm
  -- Operands
  | literalOutOfRange (text : String)
  | expectedExpression (found : String)
  | newOfType
  | newArraySize (type : String)
  | newOfBuiltin (name : String)
  | wholeArray
  | wholeStruct
  | thisOutside
  | expectedCall (name : String)
  | expectedDot (type : String)
  | notAComponent (name struct : String)
  | accessNeedsObject (name : String)
  | callNeedsObject (name : String)
  | guardedComponent (name : String)
  | structBeforeDot (name type : String)
  | unstoredStruct (name : String)
  | dereferenceOfNull
  | indexTooLow (number : Nat) (index : Int32)
  | indexTooHigh (number : Nat) (index : Int32) (greatest : UInt32)
  | notIndexable (type : String)
  | indexType (type : String)
  -- Calls
  | emptyArgument (number : Nat)
  | tooManyArguments (declared given : Nat)
  | missingArgument (number : Nat)
  | expectedArgumentEnd (found : String)
  | voidArgument
  -- Assignments
  | cannotAssignTo (found : String)
  | expectedAssignment (found : String)
  | notAssignable
  | writeToThis
  | writeToReadonly (name : String)
  | writeToGuarded (name : String)
  -- Faults of the compiler itself
  | returnOutside
  | callWithoutObject (name : String)
  | unstoredArray
  | noStruct
  | unbalancedNesting
  | declaredTwice (name : String)
  | changeOfOther (change : String)
  | memberName
  | outOfRange (table : String)
  | tooDeep
  | stalled
  deriving DecidableEq, Repr

namespace Fault

def kind : Fault → ErrorKind
  | .literalOutOfRange _ => .lexical
  | .expectedToken _ _ | .expectedIdentifier _ | .expectedType _ | .readonlyFunction
  | .endInBody _ | .misplacedOnStruct _ | .endInStruct _ | .misplacedInStruct _
  | .memberQualifier | .accessTwice | .attributeWithParams | .memberFunctionAccess _
  | .attributeAccess | .qualifierTwice _ | .onlyOnStruct _ | .onlyInStruct _
  | .qualifiedEnum | .qualifiedExport | .noLoopCheckVariable | .labelOutsideSwitch _
  | .elseWithoutIf | .endInBlock | .expectedLoopSemicolon _ | .endInSwitch
  | .expectedCase _ | .emptyCase | .expectedValue _ _ | .expectedAfter _
  | .incrementInside _ | .missingRightSide _ | .expectedOperator _ | .emptySecondArm
  | .emptyThirdArm | .expectedExpression _ | .expectedCall _ | .expectedDot _
  | .emptyArgument _ | .expectedArgumentEnd _ | .expectedAssignment _ => .syntactic
  | .returnOutside | .callWithoutObject _ | .unstoredArray | .noStruct | .unbalancedNesting
  | .declaredTwice _ | .changeOfOther _ | .memberName | .outOfRange _ | .tooDeep | .stalled
  | .script (.yankOutOfRange _ _) => .internal
  | _ => .semantic

def managedText (managed : Bool) : String :=
  if managed then "managed" else "non-managed"

def message : Fault → String
  | .expectedToken wanted found => s!"Expected '{wanted}', found '{found}' instead"
  | .expectedIdentifier found => s!"Expected an identifier, found '{found}' instead"
  | .undeclared name => s!"Identifier '{name}' is undeclared"
  | .alreadyDefinedAs name kind => s!"'{name}' is already defined as a {kind}"
  | .notAStruct name => s!"'{name}' is not a struct"
  | .oldStringType => "Type 'string' is no longer supported; use String instead"
  | .notAType name => s!"'{name}' is not a type"
  | .undeclaredType name => s!"Type '{name}' is undeclared"
  | .expectedType found => s!"Expected a type, found '{found}' instead"
  | .pointerToUnmanaged (some name) type =>
    s!"Cannot declare '{name}' as a pointer to the non-managed type '{type}'"
  | .pointerToUnmanaged none type => s!"Cannot declare a pointer to the non-managed type '{type}'"
  | .arrayOfVoid => "Cannot declare an array of 'void'"
  | .dynamicArrayOfStruct (some name) type =>
    s!"Cannot declare '{name}' as a dynamic array of the non-managed struct '{type}'"
  | .dynamicArrayOfStruct none type =>
    s!"Dynamic arrays of the non-managed struct '{type}' are not supported"
  | .arrayOfDynamicArrays => "Cannot declare an array of dynamic arrays"
  | .arraySizeTooSmall size => s!"Array size must be at least 1, found {size} instead"
  | .arraySizeNotConstant => "Array size must be a constant integer expression"
  | .variableOfVoid name => s!"'{name}' cannot have the type 'void'"
  | .managedInstance name type =>
    s!"Cannot declare '{name}' as an instance of the managed type '{type}'; use a pointer instead"
  | .onlyForwardDeclared type => s!"The struct '{type}' has only been forward-declared"
  | .paramOfStaticArray number =>
    s!"Parameter #{number} cannot be a static array; use a dynamic array instead"
  | .paramOfVoid number => s!"Parameter #{number} cannot have the type 'void'"
  | .paramOfStruct number =>
    s!"Parameter #{number} cannot be a struct instance; pass a pointer instead"
  | .nullDefault number =>
    s!"Parameter #{number} is not a pointer, so its default cannot be 'null'"
  | .stringDefault number =>
    s!"Parameter #{number} is not a string, so its default cannot be a string"
  | .badDefault number type =>
    s!"The default of parameter #{number} must be a literal of type '{type}'"
  | .importWithBody name => s!"Imported function '{name}' cannot have a body"
  | .readonlyFunction => "'readonly' cannot be used with functions"
  | .returnOfStruct name => s!"'{name}' cannot return a struct instance; return a pointer instead"
  | .returnOfStaticArray name => s!"'{name}' cannot return a static array"
  | .undeclaredMember name struct =>
    s!"'{name}' is not declared as a member function of the struct '{struct}'"
  | .alreadyComponent name struct => s!"'{name}' is already a component of the struct '{struct}'"
  | .mismatch difference => difference.message
  | .bodyTwice name line => s!"Function '{name}' is already defined with a body on line {line}"
  | .importedFunction name => s!"Function '{name}' is imported, so it cannot be defined here"
  | .calledAsImport name =>
    s!"Function '{name}' has already been called as an import; define it before using it"
  | .importOfDefined name line =>
    s!"Function '{name}' is defined on line {line}, so it cannot be imported"
  | .paramTwice name => s!"Parameter '{name}' is defined twice"
  | .endInBody name => s!"Unexpected end of input in the body of '{name}'"
  | .neverDefined name => s!"The called function '{name}()' isn't defined with body nor imported"
  | .misplacedOnStruct qualifier => s!"'{qualifier}' cannot be used with a struct"
  | .autoptrOfUnmanaged => "'autoptr' can only be used with managed structs"
  | .alreadyEnum name => s!"'{name}' is already defined as an enum"
  | .structTwice name => s!"The struct '{name}' is already defined"
  | .forwardDeclaredAs name true => s!"The struct '{name}' was forward-declared as managed"
  | .forwardDeclaredAs name false =>
    s!"The struct '{name}' was forward-declared as not managed"
  | .forwardOfUnmanaged => "Only managed structs can be forward-declared"
  | .endInStruct name => s!"Unexpected end of input in the declaration of '{name}'"
  | .extendsMixed name parent managed parentManaged =>
    s!"The {managedText managed} struct '{name}' cannot extend " ++
      s!"the {managedText parentManaged} struct '{parent}'"
  | .misplacedInStruct qualifier => s!"'{qualifier}' cannot be used inside a struct"
  | .memberQualifier => "Struct members cannot be '_tryimport' or 'noloopcheck'"
  | .accessTwice => "Can only use one of 'protected', 'writeprotected' and 'readonly'"
  | .attributeWithParams => "An attribute cannot have parameters"
  | .componentTwice struct name kind => s!"'{struct}::{name}' is already declared as a {kind}"
  | .staticField name => s!"'{name}': static variables are not supported in structs"
  | .importedField name => s!"'{name}': only functions and attributes can be imported"
  | .fieldOfManaged name type =>
    s!"'{name}' cannot be an instance of the managed type '{type}'; use a pointer instead"
  | .fieldOfIncomplete name type => s!"'{name}' cannot have the incomplete type '{type}'"
  | .memberFunctionAccess name =>
    s!"Member function '{name}' cannot be 'writeprotected' or 'readonly'"
  | .attributeAccess => "Attributes cannot be 'protected' or 'writeprotected'"
  | .attributeOfStruct name =>
    s!"Attribute '{name}' cannot be a struct instance; use a pointer instead"
  | .qualifierTwice qualifier => s!"'{qualifier}' is given twice"
  | .onlyOnStruct qualifier => s!"'{qualifier}' can only be used in a struct declaration"
  | .onlyInStruct qualifier => s!"'{qualifier}' can only be used inside a struct"
  | .qualifiedEnum => "An enum cannot have qualifiers"
  | .enumValue name => s!"Expected a constant integer value for the enum member '{name}'"
  | .qualifiedExport => "'export' cannot have qualifiers"
  | .noLoopCheckVariable => "'noloopcheck' can only be used with functions"
  | .globalTwice name line => s!"'{name}' is already defined (on line {line})"
  | .usedAsImport name =>
    s!"'{name}' has already been used as an import; define it before using it"
  | .importedVariable name => s!"'{name}' is imported, so it cannot be defined here"
  | .importWithValue => "Imported variables cannot have any initial assignment"
  | .pointerWithValue name => s!"Cannot assign an initial value to the global pointer '{name}'"
  | .wholeWithValue name => s!"Cannot assign an initial value to '{name}'"
  | .expectedStringValue name => s!"Expected a string literal as the initial value of '{name}'"
  | .stringValueTooLong name => s!"The initial value of '{name}' is longer than 199 characters"
  | .valueNotConstant name =>
    s!"The initial value of the global variable '{name}' must be a constant"
  | .expectedFloatValue name found =>
    s!"Expected a float value for '{name}', found the integer {found} instead"
  | .exportWithoutBody name => s!"Cannot export '{name}' because it has no body"
  | .exportOfImport name => s!"Cannot export the imported variable '{name}'"
  | .exportOfOther name => s!"Can only export global variables and functions, not '{name}'"
  | .script error => error.message
  | .labelOutsideSwitch label => s!"'{label}' is only allowed directly inside a switch"
  | .elseWithoutIf => "'else' without a matching 'if'"
  | .endInBlock => "Unexpected end of input; a '\x7d' is missing"
  | .expectedReturnValue type => s!"Expected a return value of type '{type}'"
  | .valueFromVoid => "Cannot return a value from a 'void' function"
  | .breakOutside => "'break' is only allowed inside a loop or a switch"
  | .continueOutside => "'continue' is only allowed inside a loop"
  | .fallthroughOutside => "'fallthrough' is only allowed directly inside a switch"
  | .expectedLoopSemicolon found =>
    s!"Expected ';' after the loop condition, found '{found}' instead"
  | .switchType type => s!"Cannot switch on a value of type '{type}'"
  | .endInSwitch => "Unexpected end of input; the switch is missing its '\x7d'"
  | .expectedCase found => s!"Expected 'case' or 'default', found '{found}' instead"
  | .declarationInSwitch =>
    "Cannot use declarations directly within a switch body " ++
      "(put the case into a '\x7b ... \x7d' block)"
  | .emptyCase => "Expected a value after 'case'"
  | .caseTwice value => s!"Duplicate case value '{value}'"
  | .caseType value type => s!"The case value '{value}' does not match the switch type '{type}'"
  | .defaultTwice => "This switch already has a 'default' label"
  | .localTwice name => s!"'{name}' has already been defined in this scope"
  | .localIsParam name => s!"'{name}' has already been defined as a parameter"
  | .localIsType name => s!"'{name}' is the name of a type"
  | .expectedValue name found =>
    s!"Expected the initial value of '{name}', found '{found}' instead"
  | .expectedAfter operator => s!"Expected an expression after '{operator}'"
  | .incrementInside operator => s!"'{operator}' is only allowed as a statement of its own"
  | .operatorType operator type =>
    s!"The operator '{operator}' cannot be applied to a value of type '{type}'"
  | .fold error => error.message
  | .missingRightSide operator => s!"Binary operator '{operator}' doesn't have a right hand side"
  | .expectedOperator found => s!"Expected an operator, found '{found}' instead"
  | .cannotConvert source target => s!"Type mismatch: cannot convert '{source}' to '{target}'"
  | .cannotAssign source target =>
    s!"Cannot assign a type '{source}' value to a type '{target}' variable"
  | .voidInExpression => "A 'void' value cannot be used in an expression"
  | .voidHere => "A 'void' value cannot be used here"
  | .operatorOnStrings operator => s!"The operator '{operator}' cannot be applied to strings"
  | .operatorOnFloats operator => s!"The operator '{operator}' cannot be applied to float values"
  | .operatorOnPointers operator => s!"The operator '{operator}' cannot be applied to pointers"
  | .conditionType type =>
    s!"Expected an integer or pointer condition, found a value of type '{type}' instead"
  | .emptySecondArm => "The second expression of this ternary is empty"
  | .emptyThirdArm => "The third expression of this ternary is empty"
  | .literalOutOfRange text => s!"Numeric literal '{text}' is out of range"
  | .expectedExpression found => s!"Expected an expression, found '{found}' instead"
  | .newOfType => "Can only use integer types or 'float' or managed types with 'new'"
  | .newArraySize type =>
    s!"The size of a dynamic array must be an integer, found '{type}' instead"
  | .newOfBuiltin name => s!"Cannot create an instance of the builtin type '{name}' with 'new'"
  | .wholeArray => "Cannot access array as a whole (did you forget to add \"[0]\"?)"
  | .wholeStruct => "Cannot access non-managed struct as a whole"
  | .thisOutside => "'this' is only legal in non-static struct functions"
  | .expectedCall name => s!"Expected '(' after the function name '{name}'"
  | .expectedDot type => s!"Expected '.' after the type name '{type}'"
  | .notAComponent name struct => s!"'{name}' is not a component of the struct '{struct}'"
  | .accessNeedsObject name =>
    s!"'{name}' is not static, so it can only be accessed through an object"
  | .callNeedsObject name =>
    s!"'{name}' is not static, so it can only be called through an object"
  | .guardedComponent name => s!"Protected component '{name}' must not be accessed from outside"
  | .structBeforeDot name type =>
    s!"Expected a struct before '.{name}', found a value of type '{type}' instead"
  | .unstoredStruct name =>
    s!"Cannot access '{name}' of a struct value that isn't stored anywhere"
  | .dereferenceOfNull => "Cannot dereference 'null'"
  | .indexTooLow number index => s!"Array index #{number} is {index}, thus too low (minimum is 0)"
  | .indexTooHigh number index greatest =>
    s!"Array index #{number} is {index}, thus too high (maximum is {greatest})"
  | .notIndexable type => s!"Cannot apply '[' to a value of type '{type}'"
  | .indexType type => s!"Array index must be an integer, found a value of type '{type}' instead"
  | .emptyArgument number => s!"Argument #{number} of this call is empty"
  | .tooManyArguments declared given => s!"Expected just {declared} parameters but found {given}"
  | .missingArgument number =>
    s!"Function call parameter #{number} isn't provided and doesn't have any default value"
  | .expectedArgumentEnd found => s!"Expected ',' or ')', found '{found}' instead"
  | .voidArgument => "A 'void' value cannot be used as an argument"
  | .cannotAssignTo found => s!"Cannot assign to '{found}'"
  | .expectedAssignment found => s!"Expected an assignment operator, found '{found}' instead"
  | .notAssignable => "Cannot assign to this expression"
  | .writeToThis => "Cannot assign to 'this'"
  | .writeToReadonly name => s!"Cannot write to readonly '{name}'"
  | .writeToGuarded name =>
    s!"Writeprotected component '{name}' must not be modified from outside"
  | .returnOutside => "'return' outside of a function"
  | .callWithoutObject name => s!"Call of '{name}' without an object"
  | .unstoredArray => "Static array that isn't stored anywhere"
  | .noStruct => "Member function without a struct"
  | .unbalancedNesting => "Nesting out of balance"
  | .declaredTwice name => s!"'{name}' was declared twice"
  | .changeOfOther change => s!"{change} a type that is not a struct"
  | .memberName => "Member name does not match its function"
  | .outOfRange table => s!"Out of the range of the {table}"
  | .tooDeep => "Nesting deeper than the token list is long"
  | .stalled => "A list without an end"

end Fault

inductive Warning where
  | unreachable
  | fallsThrough
  | hidesFunction (name : String)
  | hidesEnumValue (name enum : String)
  | missingReturn (function : String)
  deriving DecidableEq, Repr

def Warning.message : Warning → String
  | .unreachable => "Code execution cannot reach this point"
  | .fallsThrough =>
    "Code execution may fall through to the next case (did you forget a 'break;'?)"
  | .hidesFunction name => s!"This hides the function '{name}()'"
  | .hidesEnumValue name enum => s!"This hides the enum value '{name}' of '{enum}'"
  | .missingReturn function =>
    s!"Code execution may reach the end of the non-void function '{function}' without a 'return'"

end AdventureScript
