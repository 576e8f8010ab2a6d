import Mathlib.Data.List.Pairwise
import Mathlib.Data.List.Perm.Basic
import PlatformSnapshot.Files.Recorded
import PlatformSnapshot.Proofs.Memory.Nodes
import PlatformSnapshot.Proofs.Reading
import PlatformSnapshot.Proofs.Text.Decimal
/-!
Discovering memory nodes. A node directory is read if each of its nodes is, and then gives every node
with what its own two files say. So the order in which the entries are listed cannot show, nor can
entries that are no nodes; and one broken node fails the reading in every order.
-/
namespace PlatformSnapshot.Nodes

open Numeral (IsRow decimal)
open scoped List

/-- The name of a node's directory: `node` and digits that spell the id. -/
def IsNode (name : String) (id : UInt32) : Prop :=
  ∃ ds, name.toList = "node".toList ++ ds ∧ IsRow ds ∧ decimal ds = id.toNat

/-- What the two files of a node say, if both can be read and are accepted. -/
structure Tells (view : Files.Access) (root name : String) (r : Reading) : Prop where
  memory : ∃ text, view.read (Path.join (Path.join root name) "meminfo") = .ok text ∧
    NodeMemory.parse text = .ok r.memory
  cpus : ∃ text, view.read (Path.join (Path.join root name) "cpulist") = .ok text ∧
    IdList.decode text = .ok r.cpus

/-- A node that cannot be read, since one of its files cannot or is not accepted. -/
structure IsBroken (view : Files.Access) (root : String) (names : List String) (name : String) : Prop where
  listed : name ∈ names
  isNode : ∃ id, IsNode name id
  unusable : ∀ r, ¬ Tells view root name r

/-- Nodes as they are found in a directory: those of its entries, each with what its files say. -/
structure Found (view : Files.Access) (root : String) (names : List String) (n : Nodes) : Prop where
  keys : ∀ id, id ∈ n.cpus.keys ↔ ∃ name ∈ names, IsNode name id
  tells : ∀ name ∈ names, ∀ id, IsNode name id → ∃ r, Tells view root name r ∧
    n.cpus.get? id = some r.cpus ∧ n.free.get? id = r.memory.free ∧ n.used.get? id = r.memory.used
  no_figures : ∀ id, (∀ name ∈ names, ¬ IsNode name id) → n.free.get? id = none ∧ n.used.get? id = none

/-- Two names that are not those of one node. -/
def Apart (a b : String) : Prop := ∀ id, ¬ (IsNode a id ∧ IsNode b id)

instance : Std.Symm Apart := ⟨fun _ _ h id hid => h id hid.symm⟩

def isNodeName (name : String) : Bool := (id? name).isSome

/-- Another view of a node directory, with the same nodes in any order among any other entries, and
with the same answers about the two files of each node. -/
structure SameNodes (view other : Files.Access) (root : String) (names others : List String) : Prop where
  list : other.list root = .ok others
  perm : names.filter isNodeName ~ others.filter isNodeName
  read : ∀ name ∈ names, isNodeName name → ∀ file ∈ ["meminfo", "cpulist"],
    other.read (Path.join (Path.join root name) file) = view.read (Path.join (Path.join root name) file)

variable {view other : Files.Access} {root name : String} {names others : List String} {id : UInt32}
  {n m : Nodes} {r s : Reading}

theorem id?_eq_some_iff : id? name = some id ↔ IsNode name id := by
  unfold id? IsNode
  cases h : Text.after? "node".toList name.toList with
  | none =>
    refine ⟨nofun, ?_⟩
    rintro ⟨ds, hds, -⟩
    rw [Text.after?_eq_some_iff.2 hds] at h
    cases h
  | some ds =>
    have hds := Text.after?_eq_some_iff.1 h
    simp only [Option.bind_eq_some_iff, Numeral.digits?_eq_some_iff, Numeral.ofNat_word_eq_some_iff, hds,
      List.append_cancel_left_eq]
    constructor
    · rintro ⟨_, ⟨hrow, rfl⟩, hid⟩
      exact ⟨ds, rfl, hrow, hid⟩
    · rintro ⟨_, rfl, hrow, hid⟩
      exact ⟨_, ⟨hrow, rfl⟩, hid⟩

theorem apart_iff {a b : String} : Apart a b ↔ id? a = none ∨ id? a ≠ id? b := by
  simp only [Apart, ← id?_eq_some_iff]
  constructor
  · intro h
    cases ha : id? a with
    | none => exact .inl rfl
    | some id => exact .inr fun hb => h id ⟨ha, hb.symm⟩
  · rintro h id ⟨ha, hb⟩
    simp [ha, hb] at h

instance (a b : String) : Decidable (Apart a b) := decidable_of_iff _ apart_iff.symm

theorem isNodeName_iff : isNodeName name ↔ ∃ id, IsNode name id := by
  simp only [isNodeName, Option.isSome_iff_exists, id?_eq_some_iff]

theorem tells_iff : Tells view root name r ↔ readNode view (Path.join root name) = .ok r := by
  rw [readNode_eq_ok_iff]
  exact ⟨fun h => ⟨h.memory, h.cpus⟩, fun h => ⟨h.1, h.2⟩⟩

theorem Tells.unique (hr : Tells view root name r) (hs : Tells view root name s) : r = s :=
  Except.ok.inj ((tells_iff.1 hr).symm.trans (tells_iff.1 hs))

theorem Found.unique (hn : Found view root names n) (hm : Found view root names m) : n = m := by
  have hsame : ∀ id, n.free.get? id = m.free.get? id ∧ n.used.get? id = m.used.get? id ∧
      n.cpus.get? id = m.cpus.get? id := by
    intro id
    by_cases hid : ∃ name ∈ names, IsNode name id
    · obtain ⟨name, hname, hnode⟩ := hid
      obtain ⟨r, hr, hncpus, hnfree, hnused⟩ := hn.tells name hname id hnode
      obtain ⟨s, hs, hmcpus, hmfree, hmused⟩ := hm.tells name hname id hnode
      obtain rfl := hr.unique hs
      exact ⟨hnfree.trans hmfree.symm, hnused.trans hmused.symm, hncpus.trans hmcpus.symm⟩
    · have hnone : ∀ name ∈ names, ¬ IsNode name id := fun name hname hnode => hid ⟨name, hname, hnode⟩
      have hcpus : ∀ {n : Nodes}, Found view root names n → n.cpus.get? id = none := by
        intro n hn
        refine Option.eq_none_iff_forall_ne_some.2 fun set hset => hid ((hn.keys id).1 ?_)
        exact n.cpus.mem_keys_iff.2 ⟨set, hset⟩
      obtain ⟨hnfree, hnused⟩ := hn.no_figures id hnone
      obtain ⟨hmfree, hmused⟩ := hm.no_figures id hnone
      exact ⟨hnfree.trans hmfree.symm, hnused.trans hmused.symm, (hcpus hn).trans (hcpus hm).symm⟩
  obtain ⟨nfree, nused, ncpus⟩ := n
  obtain ⟨mfree, mused, mcpus⟩ := m
  obtain rfl : nfree = mfree := SortedMap.ext_get? fun id => (hsame id).1
  obtain rfl : nused = mused := SortedMap.ext_get? fun id => (hsame id).2.1
  obtain rfl : ncpus = mcpus := SortedMap.ext_get? fun id => (hsame id).2.2
  rfl

/-- Only the nodes among the entries count. -/
theorem Found.congr (h : ∀ name, isNodeName name → (name ∈ names ↔ name ∈ others))
    (hn : Found view root names n) : Found view root others n := by
  have hmem : ∀ {name id}, IsNode name id → (name ∈ names ↔ name ∈ others) :=
    fun hnode => h _ (isNodeName_iff.2 ⟨_, hnode⟩)
  constructor
  case keys =>
    intro id
    rw [hn.keys]
    constructor
    · rintro ⟨name, hname, hnode⟩
      exact ⟨name, (hmem hnode).1 hname, hnode⟩
    · rintro ⟨name, hname, hnode⟩
      exact ⟨name, (hmem hnode).2 hname, hnode⟩
  case tells => exact fun name hname id hnode => hn.tells name ((hmem hnode).2 hname) id hnode
  case no_figures =>
    intro id hid
    exact hn.no_figures id fun name hname hnode => hid name ((hmem hnode).1 hname) hnode

theorem read_of_list (h : view.list root = .ok names) : read view root = readEntries view root {} names := by
  rw [read_eq, h]
  rfl

/-- The reading depends on the view through the files of the nodes only. -/
theorem readEntries_congr (h : ∀ name ∈ names, isNodeName name →
      readNode other (Path.join root name) = readNode view (Path.join root name)) (n : Nodes) :
    readEntries other root n names = readEntries view root n names := by
  induction names generalizing n with
  | nil => rfl
  | cons name rest ih =>
    obtain ⟨hname, hrest⟩ := List.forall_mem_cons.1 h
    cases hid : id? name with
    | none => rw [readEntries_skip hid, readEntries_skip hid, ih hrest]
    | some id =>
      rw [readEntries_node hid, readEntries_node hid, hname (by simp [isNodeName, hid])]
      exact congrArg _ (funext fun r => ih hrest _)

/-- Either every node is read, or the reading fails with the error of one of them. -/
theorem readEntries_all_or_error (view : Files.Access) (root : String) (n : Nodes) (names : List String) :
    (∃ m, readEntries view root n names = .ok m ∧
      ∀ name ∈ names, isNodeName name → ∃ r, Tells view root name r) ∨
    ∃ name ∈ names, isNodeName name ∧
      ∃ e, readNode view (Path.join root name) = .error e ∧ readEntries view root n names = .error e := by
  induction names generalizing n with
  | nil => exact .inl ⟨n, rfl, by simp⟩
  | cons name rest ih =>
    cases hid : id? name with
    | none =>
      have hname : ¬ isNodeName name = true := by simp [isNodeName, hid]
      rw [readEntries_skip hid]
      rcases ih n with ⟨m, hm, hrest⟩ | ⟨bad, hmem, hbad⟩
      · exact .inl ⟨m, hm, List.forall_mem_cons.2 ⟨fun h => absurd h hname, hrest⟩⟩
      · exact .inr ⟨bad, List.mem_cons_of_mem _ hmem, hbad⟩
    | some id =>
      have hname : isNodeName name = true := by simp [isNodeName, hid]
      rw [readEntries_node hid]
      cases hr : readNode view (Path.join root name) with
      | error e => exact .inr ⟨name, List.mem_cons_self, hname, e, hr, rfl⟩
      | ok r =>
        rcases ih (n.add id r) with ⟨m, hm, hrest⟩ | ⟨bad, hmem, hbad⟩
        · exact .inl ⟨m, hm, List.forall_mem_cons.2 ⟨fun _ => ⟨r, tells_iff.2 hr⟩, hrest⟩⟩
        · exact .inr ⟨bad, List.mem_cons_of_mem _ hmem, hbad⟩

/-- If every node says something, the reading finds all of it. -/
theorem exists_found (hd : names.Pairwise Apart)
    (h : ∀ name ∈ names, ∀ id, IsNode name id → ∃ r, Tells view root name r) :
    ∃ n, readEntries view root {} names = .ok n ∧ Found view root names n := by
  have hchoice : ∀ id, ∃ r, ∀ name ∈ names, IsNode name id → Tells view root name r := by
    intro id
    by_cases hid : ∃ name ∈ names, IsNode name id
    · obtain ⟨name, hname, hnode⟩ := hid
      obtain ⟨r, hr⟩ := h name hname id hnode
      refine ⟨r, fun other hother hsame => ?_⟩
      obtain rfl : other = name := by
        by_contra hne
        exact hd.forall hother hname hne id ⟨hsame, hnode⟩
      exact hr
    · exact ⟨⟨{}, ∅⟩, fun name hname hnode => absurd ⟨name, hname, hnode⟩ hid⟩
  choose f hf using hchoice
  have hread : ∀ name ∈ names, ∀ id, id? name = some id → readNode view (Path.join root name) = .ok (f id) :=
    fun name hname id hid => tells_iff.1 (hf id name hname (id?_eq_some_iff.1 hid))
  obtain ⟨n, seen, hn, hgiven, hseen⟩ := readEntries_given given_empty hread
  have hmem : ∀ id, id ∈ seen ↔ ∃ name ∈ names, IsNode name id := by
    intro id
    simp [hseen, id?_eq_some_iff]
  refine ⟨n, hn, ?_⟩
  constructor
  case keys =>
    intro id
    rw [n.cpus.mem_keys_iff, ← hmem, hgiven.cpus]
    by_cases hid : id ∈ seen <;> simp [hid]
  case tells =>
    intro name hname id hnode
    have hid := (hmem id).2 ⟨name, hname, hnode⟩
    refine ⟨f id, hf id name hname hnode, ?_, ?_, ?_⟩
    · rw [hgiven.cpus, if_pos hid]
    · rw [hgiven.free, if_pos hid]
    · rw [hgiven.used, if_pos hid]
  case no_figures =>
    intro id hnone
    have hid : id ∉ seen := fun hid => by
      obtain ⟨name, hname, hnode⟩ := (hmem id).1 hid
      exact hnone name hname hnode
    exact ⟨by rw [hgiven.free, if_neg hid], by rw [hgiven.used, if_neg hid]⟩

/-- A reading that succeeds has read every node. -/
theorem tells_of_readEntries (h : readEntries view root n names = .ok m) :
    ∀ name ∈ names, ∀ id, IsNode name id → ∃ r, Tells view root name r := by
  intro name hname id hnode
  rcases readEntries_all_or_error view root n names with ⟨-, -, hall⟩ | ⟨_, _, _, e, _, he⟩
  · exact hall name hname (isNodeName_iff.2 ⟨id, hnode⟩)
  · rw [h] at he
    cases he

theorem readEntries_eq_ok_iff (hd : names.Pairwise Apart) :
    readEntries view root {} names = .ok n ↔ Found view root names n := by
  constructor
  · intro h
    obtain ⟨m, hm, hfound⟩ := exists_found hd (tells_of_readEntries h)
    rw [h] at hm
    rwa [Except.ok.inj hm]
  · intro h
    obtain ⟨m, hm, hfound⟩ := exists_found hd fun name hname id hnode =>
      (h.tells name hname id hnode).imp fun _ hr => hr.1
    rw [hm, hfound.unique h]

namespace SameNodes

theorem mem_iff (h : SameNodes view other root names others) (hnode : isNodeName name) :
    name ∈ names ↔ name ∈ others := by
  have hmem := h.perm.mem_iff (a := name)
  simpa [hnode] using hmem

theorem pairwise (h : SameNodes view other root names others) (hd : names.Pairwise Apart) :
    others.Pairwise Apart := by
  have hfilter : ∀ ns : List String, (ns.filter isNodeName).Pairwise Apart ↔ ns.Pairwise Apart := by
    intro ns
    rw [List.pairwise_filter]
    refine ⟨fun hp => hp.imp fun {a b} hab id hid => ?_, fun hp => hp.imp fun hab _ _ => hab⟩
    exact hab (isNodeName_iff.2 ⟨id, hid.1⟩) (isNodeName_iff.2 ⟨id, hid.2⟩) id hid
  rw [← hfilter] at hd ⊢
  exact (h.perm.pairwise_iff fun hab => Std.Symm.symm _ _ hab).1 hd

/-- Another listing of the same nodes is read as if the files below it were the first view's. -/
theorem read_eq (h : SameNodes view other root names others) :
    Nodes.read other root = readEntries view root {} others := by
  rw [read_of_list h.list]
  exact readEntries_congr (fun name hname hnode => readNode_congr (h.read name ((h.mem_iff hnode).2 hname) hnode)) {}

theorem read_eq_ok_iff (h : SameNodes view other root names others) (hd : names.Pairwise Apart) :
    Nodes.read other root = .ok n ↔ Found view root names n := by
  rw [h.read_eq, readEntries_eq_ok_iff (h.pairwise hd)]
  exact ⟨Found.congr fun _ hnode => (h.mem_iff hnode).symm, Found.congr fun _ hnode => h.mem_iff hnode⟩

end SameNodes

theorem SameNodes.refl (h : view.list root = .ok names) : SameNodes view view root names names :=
  ⟨h, .refl _, fun _ _ _ _ _ => rfl⟩

theorem not_found_of_isBroken (h : IsBroken view root names name) : ¬ Found view root names n := by
  intro hn
  obtain ⟨id, hnode⟩ := h.isNode
  obtain ⟨r, hr, -⟩ := hn.tells name h.listed id hnode
  exact h.unusable r hr

theorem SameNodes.exists_error (h : SameNodes view other root names others) (hd : names.Pairwise Apart)
    (hbroken : IsBroken view root names name) : ∃ e, Nodes.read other root = .error e := by
  cases hread : Nodes.read other root with
  | error e => exact ⟨e, rfl⟩
  | ok n => exact absurd ((h.read_eq_ok_iff hd).1 hread) (not_found_of_isBroken hbroken)

/-- The error of a reading is that of a broken node, taken alone. -/
theorem SameNodes.exists_isBroken (h : SameNodes view other root names others) {e : SourceError}
    (he : Nodes.read other root = .error e) :
    ∃ name, IsBroken view root names name ∧ readNode view (Path.join root name) = .error e := by
  rw [h.read_eq] at he
  rcases readEntries_all_or_error view root {} others with ⟨m, hm, -⟩ | ⟨name, hname, hnode, f, hbad, hf⟩
  · rw [hm] at he
    cases he
  · obtain rfl := Except.error.inj (he.symm.trans hf)
    refine ⟨name, ⟨(h.mem_iff hnode).2 hname, isNodeName_iff.1 hnode, fun r hr => ?_⟩, hbad⟩
    rw [tells_iff.1 hr] at hbad
    cases hbad

/-- A node directory whose entries name no node twice is read if every node can be read, and then
gives just these nodes, each with what its own files say. This is so in every order of the entries
and among any other entries; a broken node fails the reading in every order, and if it is the only
one, with the same error. -/
theorem read_of_any_listing (hlist : view.list root = .ok names) (hd : names.Pairwise Apart) :
    ((∃ n, Nodes.read view root = .ok n) ↔
      ∀ name ∈ names, ∀ id, IsNode name id → ∃ r, Tells view root name r) ∧
    (∀ n, Nodes.read view root = .ok n ↔ Found view root names n) ∧
    ∀ other others, SameNodes view other root names others →
      (∀ n, Nodes.read other root = .ok n ↔ Nodes.read view root = .ok n) ∧
      ((∃ name, IsBroken view root names name) → ∃ e, Nodes.read other root = .error e) ∧
      ((∃! name, IsBroken view root names name) →
        ∃ e, Nodes.read view root = .error e ∧ Nodes.read other root = .error e) := by
  have hself := SameNodes.refl hlist
  have hfound : ∀ n, Nodes.read view root = .ok n ↔ Found view root names n := fun n => hself.read_eq_ok_iff hd
  refine ⟨?_, hfound, fun other others h => ⟨?_, ?_, ?_⟩⟩
  · rw [read_of_list hlist]
    constructor
    · rintro ⟨n, hn⟩
      exact tells_of_readEntries hn
    · intro htells
      obtain ⟨n, hn, -⟩ := exists_found hd htells
      exact ⟨n, hn⟩
  · intro n
    rw [hfound, h.read_eq_ok_iff hd]
  · rintro ⟨name, hbroken⟩
    exact h.exists_error hd hbroken
  · rintro ⟨name, hbroken, honly⟩
    obtain ⟨e, he⟩ := hself.exists_error hd hbroken
    obtain ⟨f, hf⟩ := h.exists_error hd hbroken
    obtain ⟨a, ha, hae⟩ := hself.exists_isBroken he
    obtain ⟨b, hb, hbf⟩ := h.exists_isBroken hf
    obtain rfl := (honly a ha).trans (honly b hb).symm
    obtain rfl := Except.error.inj (hae.symm.trans hbf)
    exact ⟨e, he, hf⟩

/-- Node 1 has a list of processors that ends within a range. -/
def brokenHost : Files.Recorded where
  contents := [
    ("node/node0/meminfo", .ok "Node 0 MemFree: 12 kB\n"), ("node/node0/cpulist", .ok "0-1\n"),
    ("node/node1/meminfo", .ok "Node 1 MemUsed: 7 kB\n"), ("node/node1/cpulist", .ok "2-\n")]
  listings := [("node", .ok ["online", "node1", "node0"])]

/-- The same nodes in the other order, and other entries. -/
def reorderedHost : Files.Recorded where
  contents := brokenHost.contents ++ [("node/node1x/meminfo", .ok "Node 1 MemUsed: many kB\n")]
  listings := [("node", .ok ["node0", "node1x", "node1", "has_cpu"])]

theorem error_of_brokenHost :
    ["online", "node1", "node0"].Pairwise Apart ∧
    SameNodes brokenHost.access reorderedHost.access "node"
      ["online", "node1", "node0"] ["node0", "node1x", "node1", "has_cpu"] ∧
    ∃ e, Nodes.read brokenHost.access "node" = .error e ∧ Nodes.read reorderedHost.access "node" = .error e := by
  have hd : ["online", "node1", "node0"].Pairwise Apart := by decide +kernel
  have hsame : SameNodes brokenHost.access reorderedHost.access "node"
      ["online", "node1", "node0"] ["node0", "node1x", "node1", "has_cpu"] := by
    refine ⟨rfl, by decide +kernel, ?_⟩
    decide +kernel
  refine ⟨hd, hsame, ((read_of_any_listing rfl hd).2.2 _ _ hsame).2.2 ?_⟩
  have hzero : ∃ r, readNode brokenHost.access (Path.join "node" "node0") = .ok r :=
    exists_ok_of_isOk (by decide +kernel)
  have hone : (readNode brokenHost.access (Path.join "node" "node1")).isOk = false := by decide +kernel
  refine ⟨"node1", ⟨by simp, ⟨1, id?_eq_some_iff.1 (by decide +kernel)⟩, ?_⟩, ?_⟩
  · intro r hr
    rw [tells_iff.1 hr] at hone
    cases hone
  · rintro name ⟨hname, hnode, hunusable⟩
    simp only [List.mem_cons, List.not_mem_nil, or_false] at hname
    rcases hname with rfl | rfl | rfl
    · exact absurd (isNodeName_iff.2 hnode) (by decide +kernel)
    · rfl
    · obtain ⟨r, hr⟩ := hzero
      exact absurd (tells_iff.2 hr) (hunusable r)

end PlatformSnapshot.Nodes
