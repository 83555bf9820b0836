import ConfigStore.Path.Component

/-! A configuration domain is a relative path that never leads upwards. It names a directory below the
configuration home, and the settings lie in a file of fixed name inside it. -/

namespace ConfigStore

/-- The name of the settings file in a domain's directory. -/
def configFileName : String := "config"

/-- Why a domain names no directory below the configuration home. -/
inductive DomainFault where
  | empty
  | upwards
  | absolute
  deriving DecidableEq, Repr

/-- The wording of a fault. -/
def DomainFault.message : DomainFault → String
  | .empty => "domain must not be empty"
  | .upwards => "parent directory components are not allowed"
  | .absolute => "domain must be a relative path"

/-- Why a step may not be in a domain, if it may not. -/
def Path.Component.fault? : Path.Component → Option DomainFault
  | .root => some .absolute
  | .current => none
  | .up => some .upwards
  | .named _ => none

/-- The fault of a domain, if it has one: that of its first step that has any. -/
def domainFault? (domain : String) : Option DomainFault :=
  if domain.isEmpty then some .empty else (Path.components domain).findSome? Path.Component.fault?

/-- The directory of a domain below a configuration home. -/
def domainDirectory (home domain : String) : Except DomainFault String :=
  match domainFault? domain with
  | some fault => .error fault
  | none => .ok (Path.join home domain)

/-- The settings file of a domain below a configuration home. -/
def configFile (home domain : String) : Except DomainFault String :=
  (domainDirectory home domain).map (Path.join · configFileName)

end ConfigStore
