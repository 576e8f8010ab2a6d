import PlatformSnapshot.Proofs.Json.Decode
import PlatformSnapshot.Proofs.Timestamp
import PlatformSnapshot.Snapshot.Json
/-!
Snapshots, resource control records, hosts and roots are stored as JSON without loss. What is written
is read as what it was, and what is read from any text can be written and read again.
-/
namespace PlatformSnapshot

open Document Json Term

namespace Json

variable {write : α → Document} {Storable : α → Prop}

/-- A text read and written again. -/
def rewritten (write : α → Document) (read : String → Option α) (text : String) : Option String :=
  (read text).map fun a => render (write a)

/-- Nothing that can be stored is lost, and nothing is read that cannot be stored. Written again, a text
has its normal form: it says the same and stays as it is from then on. -/
structure Lossless (write : α → Document) (read : String → Option α) (Storable : α → Prop) : Prop where
  reads_back : ∀ a, Storable a → read (render (write a)) = some a ∧ read (renderPretty (write a)) = some a
  storable : ∀ text a, read text = some a → Storable a
  normal_form : ∀ text normal, rewritten write read text = some normal →
    read normal = read text ∧ rewritten write read normal = some normal

/-- It is enough to decode the terms of documents that keep all of a value. -/
theorem Lossless.of_terms {decode : Term → Option α} (hexact : ∀ a, IsExact (write a))
    (hdecode : ∀ a, Storable a → decode (termOf (write a)) = some a)
    (hstorable : ∀ t a, decode t = some a → Storable a) :
    Lossless write (fun text => (Term.ofText? text).bind decode) Storable := by
  have hback : ∀ a, Storable a → (Term.ofText? (render (write a))).bind decode = some a := by
    intro a ha
    rw [(ofText?_render (hexact a)).1, Option.bind_some, hdecode a ha]
  have hread : ∀ text a, (Term.ofText? text).bind decode = some a → Storable a := by
    intro text a h
    obtain ⟨t, -, ht⟩ := Option.bind_eq_some_iff.1 h
    exact hstorable t a ht
  refine ⟨fun a ha => ⟨hback a ha, ?_⟩, hread, ?_⟩
  · rw [(ofText?_render (hexact a)).2, Option.bind_some, hdecode a ha]
  · intro text normal h
    obtain ⟨a, ha, rfl⟩ := Option.map_eq_some_iff.1 h
    have hnormal := hback a (hread text a ha)
    exact ⟨hnormal.trans ha.symm, by rw [rewritten, hnormal, Option.map_some]⟩

end Json

theorem Host.ofTerm?_document (h : Host) : ofTerm? (termOf h.document) = some h := by
  have hfields := fields?_termOf (rfl : h.document = Document.record _)
    (by simp only [List.map_cons, List.map_nil]; decide)
  exact bind_eq_some hfields <| bind_eq_some (text?_termOf _) <| bind_eq_some (text?_termOf _) rfl

theorem Roots.ofTerm?_document (r : Roots) : ofTerm? (termOf r.document) = some r := by
  have hfields := fields?_termOf (rfl : r.document = Document.record _)
    (by simp only [List.map_cons, List.map_nil]; decide)
  exact bind_eq_some hfields <| bind_eq_some (text?_termOf _) <| bind_eq_some (text?_termOf _) <|
    bind_eq_some (text?_termOf _) rfl

theorem ResourceControl.ofTerm?_document (r : ResourceControl) : ofTerm? (termOf r.document) = some r := by
  have hfields := fields?_termOf (rfl : r.document = Document.record _)
    (by simp only [List.map_cons, List.map_nil]; decide)
  have htext := optional?_termOf (g := .text) (f := text?) rfl text?_termOf
  have hword := optional?_termOf (g := ofWord32) (f := word32?) rfl word32?_termOf
  refine bind_eq_some hfields ?_
  exact bind_eq_some (flag?_termOf _) <| bind_eq_some (flag?_termOf _) <| bind_eq_some (flag?_termOf _) <|
    bind_eq_some (flag?_termOf _) <| bind_eq_some (htext _) <| bind_eq_some (htext _) <| bind_eq_some (hword _) <|
    bind_eq_some (hword _) <| bind_eq_some (hword _) rfl

/-- Snapshots with counts that a machine word holds, at a moment whose text can be read back. -/
structure Snapshot.Storable (p : Snapshot) : Prop where
  sockets_lt : p.sockets < UInt64.size
  cores_lt : p.cores < UInt64.size
  cpus_lt : p.cpus < UInt64.size
  timestamp : Timestamp.ofText? p.timestamp.text = some p.timestamp

theorem Snapshot.ofTerm?_document {p : Snapshot} (hp : p.Storable) : ofTerm? (termOf p.document) = some p := by
  have hfields := fields?_termOf (rfl : p.document = Document.record _)
    (by simp only [List.map_cons, List.map_nil]; decide)
  have hlayout : (termOf (ofIdMap (ofIdMap ofIds) p.layout)).idMap? (idMap? (list? word32?)) = some p.layout :=
    idMap?_termOf fun cores _ => idMap?_termOf fun ids _ => ids?_termOf ids
  have hbusy : (termOf (ofIdMap (fun n => Document.ofNat n.toNat) p.busyTime)).idMap? word64? = some p.busyTime :=
    idMap?_termOf fun n _ => word64?_termOf n
  have hmemory : ∀ m : SortedMap UInt32 Int64, (termOf (ofIdMap ofInt64 m)).idMap? int64? = some m :=
    fun m => idMap?_termOf fun n _ => int64?_termOf n
  have hcpus : (termOf (ofIdMap (fun set : IdSet => ofIds set.ids) p.nodeCpus)).idMap? idSet? = some p.nodeCpus :=
    idMap?_termOf fun s _ => idSet?_termOf s
  have htimestamp : required? (fun t => t.text?.bind Timestamp.ofText?) (some (termOf (.text p.timestamp.text))) =
      some p.timestamp := by
    rw [required?_termOf, text?_termOf, Option.bind_some, hp.timestamp]
  have hcontrol := optional?_termOf (g := ResourceControl.document) (f := ResourceControl.ofTerm?) rfl
    ResourceControl.ofTerm?_document p.resourceControl
  refine bind_eq_some hfields ?_
  -- The fields one by one, in the order of the record.
  refine bind_eq_some (count?_termOf hp.sockets_lt) ?_
  refine bind_eq_some (count?_termOf hp.cores_lt) ?_
  refine bind_eq_some (count?_termOf hp.cpus_lt) ?_
  refine bind_eq_some hlayout ?_
  refine bind_eq_some (text?_termOf p.model) ?_
  refine bind_eq_some hbusy ?_
  refine bind_eq_some (int64?_termOf p.memoryUsed) ?_
  refine bind_eq_some (hmemory p.nodeMemoryFree) ?_
  refine bind_eq_some (hmemory p.nodeMemoryUsed) ?_
  refine bind_eq_some hcpus ?_
  refine bind_eq_some htimestamp ?_
  exact bind_eq_some hcontrol rfl

/-- Whatever a snapshot is read from, it can be stored. -/
theorem Snapshot.storable_of_ofTerm? {t : Term} {p : Snapshot} (h : ofTerm? t = some p) : p.Storable := by
  have hcount : ∀ {f : Option Term} {n : Nat}, required? count? f = some n → n < UInt64.size := by
    intro f n hn
    obtain ⟨t, -, ht⟩ := Option.bind_eq_some_iff.1 hn
    exact lt_of_count? ht
  obtain ⟨fields, -, h⟩ := Option.bind_eq_some_iff.1 h
  split at h
  case h_2 => cases h
  case h_1 =>
    obtain ⟨sockets, hsockets, h⟩ := Option.bind_eq_some_iff.1 h
    obtain ⟨cores, hcores, h⟩ := Option.bind_eq_some_iff.1 h
    obtain ⟨cpus, hcpus, h⟩ := Option.bind_eq_some_iff.1 h
    -- Up to the timestamp the fields fill their types.
    obtain ⟨layout, -, h⟩ := Option.bind_eq_some_iff.1 h
    obtain ⟨model, -, h⟩ := Option.bind_eq_some_iff.1 h
    obtain ⟨busyTime, -, h⟩ := Option.bind_eq_some_iff.1 h
    obtain ⟨memoryUsed, -, h⟩ := Option.bind_eq_some_iff.1 h
    obtain ⟨nodeMemoryFree, -, h⟩ := Option.bind_eq_some_iff.1 h
    obtain ⟨nodeMemoryUsed, -, h⟩ := Option.bind_eq_some_iff.1 h
    obtain ⟨nodeCpus, -, h⟩ := Option.bind_eq_some_iff.1 h
    obtain ⟨timestamp, htimestamp, h⟩ := Option.bind_eq_some_iff.1 h
    obtain ⟨resourceControl, -, h⟩ := Option.bind_eq_some_iff.1 h
    obtain rfl := Option.some.inj h
    obtain ⟨t, -, ht⟩ := Option.bind_eq_some_iff.1 htimestamp
    obtain ⟨s, -, hs⟩ := Option.bind_eq_some_iff.1 ht
    exact ⟨hcount hsockets, hcount hcores, hcount hcpus,
      Timestamp.ofText?_text_iff.2 (Timestamp.isValid_of_ofText? hs)⟩

theorem Host.isExact_document (h : Host) : IsExact h.document := by simp [document]

theorem Roots.isExact_document (r : Roots) : IsExact r.document := by simp [document]

theorem ResourceControl.isExact_document (r : ResourceControl) : IsExact r.document := by simp [document]

theorem Snapshot.isExact_document (p : Snapshot) : IsExact p.document := by
  simp [document, ResourceControl.isExact_document]

/-- All that is stored as JSON comes back as it was, and every text that is accepted has a normal form. -/
theorem Json.lossless :
    Lossless Snapshot.document Snapshot.ofJson? Snapshot.Storable ∧
      Lossless ResourceControl.document ResourceControl.ofJson? (fun _ => True) ∧
      Lossless Host.document Host.ofJson? (fun _ => True) ∧
      Lossless Roots.document Roots.ofJson? (fun _ => True) :=
  ⟨.of_terms Snapshot.isExact_document (fun _ => Snapshot.ofTerm?_document) (fun _ _ => Snapshot.storable_of_ofTerm?),
    .of_terms ResourceControl.isExact_document (fun r _ => ResourceControl.ofTerm?_document r) (fun _ _ _ => trivial),
    .of_terms Host.isExact_document (fun h _ => Host.ofTerm?_document h) (fun _ _ _ => trivial),
    .of_terms Roots.isExact_document (fun r _ => Roots.ofTerm?_document r) (fun _ _ _ => trivial)⟩

/-- A snapshot with something in each field, at its limits where there are any. -/
def twoNodes : Snapshot where
  sockets := 2
  cores := 18446744073709551615
  cpus := 3
  layout := .ofList [(0, .ofList [(1, [3, 0]), (0, [])]), (4294967295, ∅)]
  model := "a \"model\"\n\x00\u20ac"
  busyTime := .ofList [(0, 0), (3, 18446744073709551615)]
  memoryUsed := -9223372036854775808
  nodeMemoryFree := .ofList [(0, 9223372036854775807), (1, -1)]
  nodeMemoryUsed := .ofList [(0, 0)]
  nodeCpus := .ofList [(0, .ofList [3, 0]), (1, ∅)]
  timestamp := ⟨⟨2024, 2, 29⟩, 23, 59, 60, 5⟩
  resourceControl := some ⟨true, false, true, false, some "fffff", none, some 4294967295, none, some 0⟩

theorem ofJson?_twoNodes :
    Snapshot.ofJson? (render twoNodes.document) = some twoNodes ∧
      Snapshot.ofJson? (renderPretty twoNodes.document) = some twoNodes ∧
      (∃ normal,
        rewritten Host.document Host.ofJson? "\x7b\"version\" : \"6.1\", \"up\": [1], \"hostname\": \"a\" \x7d" =
          some normal ∧ rewritten Host.document Host.ofJson? normal = some normal) ∧
      (∃ normal,
        rewritten ResourceControl.document ResourceControl.ofJson? "[true,false,true,false,null,\"1\",16,null,null]" =
          some normal ∧ rewritten ResourceControl.document ResourceControl.ofJson? normal = some normal) := by
  obtain ⟨hsnapshot, hcontrol, hhost, -⟩ := Json.lossless
  have hstorable : twoNodes.Storable := ⟨by decide, by decide, by decide, Timestamp.ofText?_text_iff.2 (by decide)⟩
  have htext : Host.ofJson? "\x7b\"version\" : \"6.1\", \"up\": [1], \"hostname\": \"a\" \x7d" =
      some ⟨"a", "6.1"⟩ := by
    decide +kernel
  have hlist : ResourceControl.ofJson? "[true,false,true,false,null,\"1\",16,null,null]" =
      some ⟨true, false, true, false, none, some "1", some 16, none, none⟩ := by decide +kernel
  have hhostNormal := congrArg (Option.map fun h => render h.document) htext
  have hcontrolNormal := congrArg (Option.map fun r => render r.document) hlist
  exact ⟨(hsnapshot.reads_back twoNodes hstorable).1, (hsnapshot.reads_back twoNodes hstorable).2,
    ⟨_, hhostNormal, (hhost.normal_form _ _ hhostNormal).2⟩,
    ⟨_, hcontrolNormal, (hcontrol.normal_form _ _ hcontrolNormal).2⟩⟩

end PlatformSnapshot
