import PlatformSnapshot.Files.Tree
import PlatformSnapshot.Proofs.Text.Split
/-!
Paths into a tree. A path made of ordinary names that is not too long leads to the node that is found
by going down name by name, and a file found there is read as the text it was written from.
-/
namespace PlatformSnapshot.Files

open Text

/-- A name that leads one directory down. -/
structure IsName (name : String) : Prop where
  ne_empty : name ≠ ""
  ne_here : name ≠ "."
  ne_up : name ≠ ".."
  size_le : name.utf8ByteSize ≤ 255
  slash_free : '/' ∉ name.toList
  nul_free : '\x00' ∉ name.toList

namespace Node

/-- The node at the end of a row of names. -/
def find? : Node → List String → Option Node
  | here, [] => some here
  | .file _, _ :: _ => none
  | .directory entries, name :: rest =>
    match entries.lookup name with
    | none => none
    | some next => find? next rest

theorem find?_cons {entries : List (String × Node)} {name : String} {next : Node}
    (h : entries.lookup name = some next) (rest : List String) :
    (directory entries).find? (name :: rest) = next.find? rest := by
  rw [find?, h]

theorem walk_eq_find? {names : List String} (hn : ∀ name ∈ names, IsName name) (above : List Node)
    {here node : Node} (h : here.find? names = some node) : walk above here names = .ok node := by
  induction names generalizing above here with
  | nil =>
    cases h
    rfl
  | cons name names ih =>
    obtain ⟨hname, hnames⟩ := List.forall_mem_cons.1 hn
    cases here with
    | file content => cases h
    | directory entries =>
      cases hnext : entries.lookup name with
      | none => simp [find?, hnext] at h
      | some next =>
        rw [find?_cons hnext] at h
        have hsize : ¬ 255 < name.utf8ByteSize := Nat.not_lt.2 hname.size_le
        have hstep : walk above (.directory entries) (name :: names) =
            walk (.directory entries :: above) next names := by
          conv => lhs; unfold walk
          simp only [hname.ne_empty, hname.ne_here, or_self, if_false, hname.ne_up, hsize, hnext]
        exact hstep.trans (ih hnames _ h)

end Node

/-- A path that consists of some names. -/
structure Leads (path : String) (names : List String) : Prop where
  components_eq : Path.components path = names
  isName : ∀ name ∈ names, IsName name
  nul_free : '\x00' ∉ path.toList
  last_ne : ∃ c, path.toList.getLast? = some c ∧ c ≠ '/'

/-- One more name leads one directory further down. -/
theorem Leads.join {path : String} {names : List String} (h : Leads path names) {name : String}
    (hn : IsName name) : Leads (Path.join path name) (names ++ [name]) ∧
      (Path.join path name).utf8ByteSize = path.utf8ByteSize + 1 + name.utf8ByteSize := by
  obtain ⟨c, hlast, hc⟩ := h.last_ne
  have hjoin : Path.join path name = path ++ "/" ++ name := by
    rw [Path.join, hlast]
    exact if_neg hc
  have hlist : (Path.join path name).toList = path.toList ++ '/' :: name.toList := by
    rw [hjoin]
    simp
  refine ⟨⟨?_, ?_, ?_, ?_⟩, ?_⟩
  · have hsplit : splitOn '/' (Path.join path name).toList = splitOn '/' path.toList ++ [name.toList] := by
      rw [hlist, splitOn_append_cons, splitOn_of_not_mem hn.slash_free]
    rw [Path.components, hsplit, List.map_append, ← h.components_eq, List.map_singleton, String.ofList_toList]
    rfl
  · simpa [or_imp, forall_and] using ⟨h.isName, hn⟩
  · simp [hlist, h.nul_free, hn.nul_free]
  · have hne : name.toList ≠ [] := fun hnil => hn.ne_empty (String.toList_eq_nil_iff.1 hnil)
    refine ⟨name.toList.getLast hne, ?_, ?_⟩
    · rw [hlist, List.getLast?_append, List.getLast?_cons, List.getLast?_eq_some_getLast hne]
      rfl
    · intro hslash
      exact hn.slash_free (hslash ▸ List.getLast_mem hne)
  · rw [hjoin, String.utf8ByteSize_append, String.utf8ByteSize_append]
    rfl

namespace Tree

variable {t : Tree} {path : String} {names : List String}

theorem locate_eq_find? (h : Leads path names) (hsize : path.utf8ByteSize < 4096) {node : Node}
    (hf : (Node.directory t).find? names = some node) : t.locate path = .ok node := by
  have hnul : path.contains '\x00' = false := by
    rw [String.contains_char_eq]
    exact decide_eq_false h.nul_free
  rw [locate, hnul, if_neg Bool.false_ne_true, if_neg (Nat.not_le.2 hsize), h.components_eq]
  have hwalk := Node.walk_eq_find? h.isName [] hf
  cases names with
  | nil =>
    have hne := splitOn_ne_nil '/' path.toList
    exact absurd (List.map_eq_nil_iff.1 h.components_eq) hne
  | cons name names =>
    have hname := (h.isName name List.mem_cons_self).ne_empty
    split
    case h_1 hnil => cases hnil
    case h_2 hsingle => exact absurd (List.cons.inj hsingle).1 hname
    case h_3 rest hroot => exact absurd (List.cons.inj hroot).1 hname
    case h_4 => exact hwalk

theorem read_eq_text (h : Leads path names) (hsize : path.utf8ByteSize < 4096) {text : String}
    (hf : (Node.directory t).find? names = some (.file text.toUTF8)) : t.read path = .ok text := by
  have htext : String.fromUTF8? text.toUTF8 = some text := dif_pos text.isValidUTF8
  rw [read, locate_eq_find? h hsize hf]
  simp only [bind, Except.bind, htext]

theorem list_eq_names (h : Leads path names) (hsize : path.utf8ByteSize < 4096)
    {entries : List (String × Node)} (hf : (Node.directory t).find? names = some (.directory entries)) :
    t.list path = .ok (entries.map (·.1)) := by
  rw [list, locate_eq_find? h hsize hf]
  rfl

end Tree
end PlatformSnapshot.Files
