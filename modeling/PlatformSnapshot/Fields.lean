/-!
The fields of a record that was read as a row of named members. A field may be known by several
names; giving it twice, under one name or under two, is an error.
-/
namespace PlatformSnapshot.Fields

/-- The only member whose key is one of the names; more than one are refused. -/
def pick? (names : List String) (members : List (String × α)) : Option (Option α) :=
  match members.filter fun m => names.contains m.1 with
  | [] => some none
  | [m] => some (some m.2)
  | _ => none

/-- The values of some fields, in the order asked for; other members are passed over. -/
def pickAll? (fields : List (List String)) (members : List (String × α)) : Option (List (Option α)) :=
  fields.mapM fun names => pick? names members

end PlatformSnapshot.Fields
