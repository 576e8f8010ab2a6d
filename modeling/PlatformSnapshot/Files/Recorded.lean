import PlatformSnapshot.Files.Access
/-!
A view made of answers that were gathered beforehand. A path that was not asked about leads nowhere.
-/
namespace PlatformSnapshot.Files

structure Recorded where
  contents : List (String × Except ReadFailure String) := []
  listings : List (String × Except ReadFailure (List String)) := []
  existing : List String := []

namespace Recorded

/-- Both records; where both answer, the first does. -/
def append (a b : Recorded) : Recorded :=
  ⟨a.contents ++ b.contents, a.listings ++ b.listings, a.existing ++ b.existing⟩

instance : Append Recorded := ⟨append⟩

def access (r : Recorded) : Access where
  read path := (r.contents.lookup path).getD (.error .notFound)
  list path := (r.listings.lookup path).getD (.error .notFound)
  has path := r.existing.contains path

end Recorded
end PlatformSnapshot.Files
