/-!
What expressions of all languages here share: operators, and the faults of working them out.
-/

namespace Polyglot

inductive Op where
  | add | sub | mul | div | floorDiv | mod | pow
  deriving DecidableEq

inductive Comparison where
  | eq | ne | lt | le | gt | ge | mem | notMem
  deriving DecidableEq

inductive Fault where
  | type
  | value
  | zeroDivision
  | index
  | key
  | attribute
  | overflow
  | other (name : String)
  deriving DecidableEq

def Fault.kind : Fault → String
  | .type => "TypeError"
  | .value => "ValueError"
  | .zeroDivision => "ZeroDivisionError"
  | .index => "IndexError"
  | .key => "KeyError"
  | .attribute => "AttributeError"
  | .overflow => "OverflowError"
  | .other name => name

/--
What is wrong with a text of a data format: its form, an integer too long to be read, or what comes of
working out one of its values.
-/
inductive DataError where
  | malformed
  | tooManyDigits
  | evaluation (f : Fault)
  deriving DecidableEq

namespace Template

inductive Error where
  | syntaxFault
  | unknownName
  | notFound (name : String)
  | noneFound
  | undefined
  | runtime
  | evaluation (f : Fault)
  deriving DecidableEq

def Error.kind : Error → String
  | .syntaxFault => "TemplateSyntaxError"
  | .unknownName => "TemplateAssertionError"
  | .notFound _ => "TemplateNotFound"
  | .noneFound => "TemplatesNotFound"
  | .undefined => "UndefinedError"
  | .runtime => "TemplateRuntimeError"
  | .evaluation f => f.kind

end Template

namespace Program

inductive Error where
  | syntaxFault
  | indentation
  | tabs
  | undefinedName
  | unbound
  | noModule (name : String)
  | evaluation (f : Fault)
  deriving DecidableEq

def Error.kind : Error → String
  | .syntaxFault => "SyntaxError"
  | .indentation => "IndentationError"
  | .tabs => "TabError"
  | .undefinedName => "NameError"
  | .unbound => "UnboundLocalError"
  | .noModule _ => "ModuleNotFoundError"
  | .evaluation f => f.kind

end Program

end Polyglot
