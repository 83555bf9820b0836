import ConfigStore.Text.Separate

/-! A machine lists its accounts a line each, with colons between the fields: the user's name, a password, the
user's number, the number of a group, a comment, the home directory, and more. -/

namespace ConfigStore

/-- The home directory in the first account of a user, who is told by number. -/
def homeInAccounts? (accounts user : List Char) : Option String :=
  (separate '\n' accounts).findSome? fun line =>
    match separate ':' line with
    | _ :: _ :: number :: _ :: _ :: home :: _ => if number == user then some (String.ofList home) else none
    | _ => none

/-- The number of the user who runs a program, in the program's status. -/
def userInStatus? (status : List Char) : Option (List Char) :=
  (separate '\n' status).findSome? fun line =>
    match separate '\t' line with
    | label :: user :: _ => if String.ofList label == "Uid:" then some user else none
    | _ => none

end ConfigStore
