/-! # Goals

What a parse is asked to recognise. -/

set_option autoImplicit false

namespace TolerantParser

inductive Goal
  | implementation
  | interface
  | expression
  | coreType
  | toplevelPhrase
  | useFile
deriving DecidableEq

namespace Goal

def all : List Goal :=
  [.implementation, .interface, .expression, .coreType, .toplevelPhrase, .useFile]

def name : Goal → String
  | implementation => "implementation"
  | interface => "interface"
  | expression => "expression"
  | coreType => "core_type"
  | toplevelPhrase => "toplevel_phrase"
  | useFile => "use_file"

def inspect : Goal → String
  | implementation => "Implementation"
  | interface => "Interface"
  | expression => "Expression"
  | coreType => "CoreType"
  | toplevelPhrase => "ToplevelPhrase"
  | useFile => "UseFile"

end Goal

end TolerantParser
