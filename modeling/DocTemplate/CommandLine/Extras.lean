import DocTemplate.Dictionary

/-!
# Options for backends on the command line

An argument `--extra-name`, or `--extras-name`, gives the backend an option
called `name`.  The next argument is its value, unless it starts with a dash:
then the value is `true`.  All other arguments are kept in their order.
-/

namespace DocTemplate
namespace CommandLine

/-- The option that an argument names. -/
def extraKey? (argument : String) : Option String :=
  let text := argument.toList
  if "--extra-".toList.isPrefixOf text then
    some (String.ofList (text.drop 8))
  else if "--extras-".toList.isPrefixOf text then
    some (String.ofList (text.drop 9))
  else
    none

/-- Whether an argument starts with a dash. -/
def isDashed (argument : String) : Bool := argument.toList.head? = some '-'

/-- What is split off a list of arguments. -/
structure Split where
  kept : List String := []
  extras : List (String × String) := []
deriving DecidableEq, Repr

/-- Splits the options for backends off a list of arguments. -/
def splitExtras : List String → Split
  | [] => {}
  | argument :: rest =>
      match extraKey? argument with
      | none =>
          let split := splitExtras rest
          { split with kept := argument :: split.kept }
      | some key =>
          match rest with
          | value :: behind =>
              if isDashed value then
                let split := splitExtras (value :: behind)
                { split with extras := (key, "true") :: split.extras }
              else
                let split := splitExtras behind
                { split with extras := (key, value) :: split.extras }
          | [] => { extras := [(key, "true")] }

/-- The options of a split, of which the last of a key counts. -/
def Split.options (split : Split) : Dictionary String :=
  .ofList split.extras

end CommandLine
end DocTemplate
