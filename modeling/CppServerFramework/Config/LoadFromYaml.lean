import CppServerFramework.Config.Lookup

/-!
# Loading the configuration

`Config::LoadFromYaml` (`config/config.cpp:11-75`).  `ListAllYamlMember` gives up a node whose path
has a capital letter before `LoadFromYaml` makes the path small.
-/

universe u v

namespace CppServerFramework.Config

open HTTP (Bytes ascii)

/-- A tree of `YAML::Node`s whose keys are scalars. -/
inductive Yaml where
  | null
  | scalar (text : Bytes)
  | sequence (items : List Yaml)
  | map (entries : List (Bytes × Yaml))

/-- The path of a child (`config.cpp:26`). -/
def childPath (path key : Bytes) : Bytes := if path.isEmpty then key else path ++ ascii "." ++ key

mutual

/-- `ListAllYamlMember` (`config.cpp:11-29`). -/
def listAllYamlMember (path : Bytes) (node : Yaml) : List (Bytes × Yaml) :=
  if !validName path then []
  else
    (path, node) :: match node with
      | .map entries => listEntries path entries
      | _ => []

/-- The loop over the entries of a map. -/
def listEntries (path : Bytes) : List (Bytes × Yaml) → List (Bytes × Yaml)
  | [] => []
  | (key, node) :: entries =>
    listAllYamlMember (childPath path key) node ++ listEntries path entries

end

mutual

/-- All nodes of a tree with their paths, each in front of those below it. -/
def members (path : Bytes) (node : Yaml) : List (Bytes × Yaml) :=
  (path, node) :: match node with
    | .map entries => membersOf path entries
    | _ => []

def membersOf (path : Bytes) : List (Bytes × Yaml) → List (Bytes × Yaml)
  | [] => []
  | (key, node) :: entries => members (childPath path key) node ++ membersOf path entries

end

/-- A call of `fromString`: the name and the variable that `LookupBase` has found, and the text. -/
structure LoadCall where
  name : Bytes
  var : Nat
  text : Bytes
  deriving DecidableEq, Repr

variable {τ : Type u} {υ : Type v}

/-- What `fromString` gets of a node; `emit` is how a `std::stringstream` writes one. -/
def nodeText (emit : Yaml → Bytes) : Yaml → Bytes
  | .scalar text => text
  | node => emit node

/-- The loop over the nodes (`config.cpp:46-73`), for one of them. -/
def loadNode (c : ConfigVarMap τ υ) (emit : Yaml → Bytes) (m : Bytes × Yaml) : Option LoadCall :=
  if m.1.isEmpty then none
  else
    let key := m.1.map tolower
    (c.lookupBase key).map fun var => ⟨key, var, nodeText emit m.2⟩

/-- `Config::LoadFromYaml` (`config.cpp:38-75`): the calls of `fromString`, in order. -/
def loadFromYaml (c : ConfigVarMap τ υ) (emit : Yaml → Bytes) (root : Yaml) : List LoadCall :=
  (listAllYamlMember [] root).filterMap (loadNode c emit)

/-! ## Names of nodes -/

/-- A letter of either case, a digit, a dot or an underscore. -/
def keyChar (b : UInt8) : Bool :=
  tolower b ∈ ascii "abcdefghijklmnopqrstuvwxyz._0123456789"

/-- The nodes below the root whose path is `name` without regard to case, in the order of the
    traversal. -/
def named (root : Yaml) (name : Bytes) : List (Bytes × Yaml) :=
  (members [] root).filter fun m => !m.1.isEmpty && m.1.map tolower = name

/-- A registered variable is read from the last node with its name, and not at all if there is
    none. -/
structure LoadsNamed (c : ConfigVarMap τ υ) (emit : Yaml → Bytes) (root : Yaml)
    (calls : List LoadCall) : Prop where
  registered : ∀ call ∈ calls, c.lookupBase call.name = some call.var
  last : ∀ name, (c.lookupBase name).isSome →
    ((calls.filter fun call => call.name = name).map LoadCall.text).getLast? =
      ((named root name).map fun m => nodeText emit m.2).getLast?

/-- The last node with the name of a registered variable has the text of the last whose path is the
    name as it is, and there is one. -/
def LastInLowerCase (c : ConfigVarMap τ υ) (emit : Yaml → Bytes) (root : Yaml) : Prop :=
  ∀ name, (c.lookupBase name).isSome → ∀ m, (named root name).getLast? = some m →
    ∃ m', ((named root name).filter fun m => m.1 = name).getLast? = some m' ∧
      nodeText emit m'.2 = nodeText emit m.2

mutual

/-- The keys of the maps have the characters of names. -/
def KeysNamed : Yaml → Prop
  | .map entries => EntriesNamed entries
  | _ => True

def EntriesNamed : List (Bytes × Yaml) → Prop
  | [] => True
  | (key, node) :: entries => (∀ b ∈ key, keyChar b = true) ∧ KeysNamed node ∧ EntriesNamed entries

end

variable {path key : Bytes} {node root : Yaml} {entries : List (Bytes × Yaml)}
  {c : ConfigVarMap τ υ} {emit : Yaml → Bytes}

theorem validName_iff : validName path = true ↔
    ∀ b ∈ path, b ∈ ascii "abcdefghijklmnopqrstuvwxyz._0123456789" := by
  simp [validName]

theorem validName_of_childPath (h : validName (childPath path key) = true) :
    validName path = true := by
  rw [validName_iff] at h ⊢
  intro b hb
  refine h b ?_
  rw [childPath]
  split
  · rename_i hempty
    rw [List.isEmpty_iff.mp hempty] at hb
    cases hb
  · simp [hb]

mutual

/-- Below an invalid path there is no valid one. -/
theorem validName_of_members : ∀ (path : Bytes) (node : Yaml), ∀ m ∈ members path node,
    validName m.1 = true → validName path = true
  | path, node, m, hm, hvalid => by
    cases node with
    | map entries =>
      rcases List.mem_cons.mp hm with rfl | hm
      · exact hvalid
      · exact validName_of_membersOf path entries m hm hvalid
    | _ =>
      obtain rfl := List.mem_singleton.mp hm
      exact hvalid

theorem validName_of_membersOf : ∀ (path : Bytes) (entries : List (Bytes × Yaml)),
    ∀ m ∈ membersOf path entries, validName m.1 = true → validName path = true
  | _, [], m, hm, _ => by cases hm
  | path, (key, node) :: entries, m, hm, hvalid => by
    rcases List.mem_append.mp hm with hm | hm
    · exact validName_of_childPath (validName_of_members (childPath path key) node m hm hvalid)
    · exact validName_of_membersOf path entries m hm hvalid

end

mutual

/-- What is listed are the nodes with a valid path. -/
theorem listAllYamlMember_eq : ∀ (path : Bytes) (node : Yaml),
    listAllYamlMember path node = (members path node).filter fun m => validName m.1
  | path, node => by
    cases hpath : validName path with
    | false =>
      have hnone : (members path node).filter (fun m => validName m.1) = [] := by
        rw [List.filter_eq_nil_iff]
        intro m hm hvalid
        rw [validName_of_members path node m hm hvalid] at hpath
        cases hpath
      rw [hnone]
      cases node <;> simp [listAllYamlMember, hpath]
    | true =>
      cases node with
      | map entries => simp [listAllYamlMember, members, hpath, listEntries_eq path entries]
      | _ => simp [listAllYamlMember, members, hpath]

theorem listEntries_eq : ∀ (path : Bytes) (entries : List (Bytes × Yaml)),
    listEntries path entries = (membersOf path entries).filter fun m => validName m.1
  | _, [] => rfl
  | path, (key, node) :: entries => by
    rw [listEntries, membersOf, List.filter_append, listAllYamlMember_eq, listEntries_eq]

end

/-! ## Characters -/

theorem keyChar_childPath (hpath : ∀ b ∈ path, keyChar b = true)
    (hkey : ∀ b ∈ key, keyChar b = true) :
    ∀ b ∈ childPath path key, keyChar b = true := by
  intro b hb
  rw [childPath] at hb
  split at hb
  · exact hkey b hb
  · rcases List.mem_append.mp hb with hb | hb
    · rcases List.mem_append.mp hb with hb | hb
      · exact hpath b hb
      · obtain rfl := List.mem_singleton.mp hb
        decide
    · exact hkey b hb

mutual

theorem keyChar_members : ∀ (path : Bytes) (node : Yaml), (∀ b ∈ path, keyChar b = true) →
    KeysNamed node → ∀ m ∈ members path node, ∀ b ∈ m.1, keyChar b = true
  | path, node, hpath, hnode, m, hm => by
    cases node with
    | map entries =>
      rw [KeysNamed] at hnode
      rcases List.mem_cons.mp hm with rfl | hm
      · exact hpath
      · exact keyChar_membersOf path entries hpath hnode m hm
    | _ =>
      obtain rfl := List.mem_singleton.mp hm
      exact hpath

theorem keyChar_membersOf : ∀ (path : Bytes) (entries : List (Bytes × Yaml)),
    (∀ b ∈ path, keyChar b = true) → EntriesNamed entries →
    ∀ m ∈ membersOf path entries, ∀ b ∈ m.1, keyChar b = true
  | _, [], _, _, m, hm => by cases hm
  | path, (key, node) :: entries, hpath, hentries, m, hm => by
    rw [EntriesNamed] at hentries
    obtain ⟨hkey, hnode, hrest⟩ := hentries
    rcases List.mem_append.mp hm with hm | hm
    · exact keyChar_members (childPath path key) node (keyChar_childPath hpath hkey) hnode m hm
    · exact keyChar_membersOf path entries hpath hrest m hm

end

/-- A character of a key is one of a name if it is not a capital letter. -/
theorem name_iff_tolower {b : UInt8} (h : keyChar b = true) :
    b ∈ ascii "abcdefghijklmnopqrstuvwxyz._0123456789" ↔ tolower b = b := by
  constructor
  · intro hb
    have hall : (ascii "abcdefghijklmnopqrstuvwxyz._0123456789").all
      (fun b => tolower b = b) = true := by decide
    exact of_decide_eq_true (List.all_eq_true.mp hall b hb)
  · intro heq
    rw [keyChar, heq] at h
    exact of_decide_eq_true h

theorem validName_iff_tolower (h : ∀ b ∈ path, keyChar b = true) :
    validName path = true ↔ path.map tolower = path := by
  have hself : path.map tolower = path ↔ ∀ b ∈ path, tolower b = b := by
    simpa using List.map_inj_left (f := tolower) (g := id) (l := path)
  rw [validName_iff, hself]
  exact forall₂_congr fun b hb => name_iff_tolower (h b hb)

/-! ## The calls -/

variable {name : Bytes} {var : Nat} {L : List (Bytes × Yaml)}

/-- A node is read for a registered name if its path is the name as it is. -/
theorem loadNode_named {m : Bytes × Yaml} (hvar : c.lookupBase name = some var)
    (hm : ∀ b ∈ m.1, keyChar b = true) :
    ((if validName m.1 then loadNode c emit m else none).filter
        fun call => call.name = name).map LoadCall.text =
      if (!m.1.isEmpty && m.1.map tolower = name) && m.1 = name then some (nodeText emit m.2)
      else none := by
  have hvalid := validName_iff_tolower hm
  by_cases hempty : m.1.isEmpty
  · simp [loadNode, hempty]
  · by_cases hlower : m.1.map tolower = m.1
    · rw [if_pos (hvalid.mpr hlower), loadNode, if_neg hempty, hlower]
      by_cases hname : m.1 = name
      · have hne : name ≠ [] := by simpa [hname] using hempty
        simp [hname, hvar, hne]
      · cases hlookup : c.lookupBase m.1 <;> simp [hlookup, hname]
    · have hnot : ¬(m.1.map tolower = name ∧ m.1 = name) := fun h => hlower (h.1.trans h.2.symm)
      rw [if_neg fun h => hlower (hvalid.mp h)]
      simp [hnot, and_assoc]

/-- The calls for a registered name are made for the nodes whose path is the name as it is. -/
theorem texts_filterMap (hvar : c.lookupBase name = some var)
    (hL : ∀ m ∈ L, ∀ b ∈ m.1, keyChar b = true) :
    (((L.filter fun m => validName m.1).filterMap (loadNode c emit)).filter
        fun call => call.name = name).map LoadCall.text =
      ((L.filter fun m => !m.1.isEmpty && m.1.map tolower = name).filter fun m => m.1 = name).map
        fun m => nodeText emit m.2 := by
  rw [List.filterMap_filter, List.filter_filterMap, List.map_filterMap, List.filter_filter,
    ← List.filterMap_eq_map, List.filterMap_filter]
  refine List.filterMap_congr fun m hm => ?_
  rw [loadNode_named hvar (hL m hm)]
  simp only [Bool.and_comm, Function.comp]

/-- The calls are right exactly if for each name the last node has the text of the last without a
    capital letter. -/
theorem loadFromYaml_named_iff (c : ConfigVarMap τ υ) (emit : Yaml → Bytes) (root : Yaml)
    (hroot : KeysNamed root) :
    LoadsNamed c emit root (loadFromYaml c emit root) ↔ LastInLowerCase c emit root := by
  have hkeys : ∀ m ∈ members [] root, ∀ b ∈ m.1, keyChar b = true :=
    keyChar_members [] root nofun hroot
  have hregistered : ∀ call ∈ loadFromYaml c emit root, c.lookupBase call.name = some call.var := by
    intro call hcall
    obtain ⟨m, -, hm⟩ := List.mem_filterMap.mp hcall
    rw [loadNode] at hm
    split at hm
    · cases hm
    · obtain ⟨var, hvar, rfl⟩ := Option.map_eq_some_iff.mp hm
      exact hvar
  have hlast : ∀ name, (c.lookupBase name).isSome →
      (((loadFromYaml c emit root).filter fun call => call.name = name).map
          LoadCall.text).getLast? =
        (((named root name).filter fun m => m.1 = name).getLast?).map
          fun m => nodeText emit m.2 := by
    intro name hname
    obtain ⟨var, hvar⟩ := Option.isSome_iff_exists.mp hname
    rw [loadFromYaml, listAllYamlMember_eq, texts_filterMap hvar hkeys, List.getLast?_map]
    rfl
  constructor
  · intro h name hname m hm
    have heq := h.last name hname
    rw [hlast name hname, List.getLast?_map, hm] at heq
    exact Option.map_eq_some_iff.mp heq
  · intro h
    refine ⟨hregistered, fun name hname => ?_⟩
    rw [hlast name hname, List.getLast?_map]
    cases hm : (named root name).getLast? with
    | none =>
      rw [List.getLast?_eq_none_iff.mp hm]
      rfl
    | some m =>
      obtain ⟨m', hm', htext⟩ := h name hname m hm
      rw [hm', Option.map_some, Option.map_some, htext]

/-- The variable `port`. -/
def portRegistered : ConfigVarMap Nat Nat :=
  ({} : ConfigVarMap Nat Nat).create ⟨0, ascii "port", 8080, []⟩

/-- A map with one scalar. -/
def portRoot (key : Bytes) : Yaml := .map [(key, .scalar (ascii "80"))]

theorem members_portRoot (key : Bytes) :
    members [] (portRoot key) = [([], portRoot key), (key, .scalar (ascii "80"))] := by
  simp [portRoot, members, membersOf, childPath]

theorem keysNamed_portRoot {key : Bytes} (h : key.all keyChar = true) :
    KeysNamed (portRoot key) := by
  rw [List.all_eq_true] at h
  simpa [portRoot, KeysNamed, EntriesNamed] using h

/-- With the letters of its name the port is read. -/
theorem loadFromYaml_named_port :
    LoadsNamed portRegistered (fun _ => []) (portRoot (ascii "port"))
      (loadFromYaml portRegistered (fun _ => []) (portRoot (ascii "port"))) := by
  have hroot : KeysNamed (portRoot (ascii "port")) := keysNamed_portRoot (by decide)
  refine (loadFromYaml_named_iff portRegistered _ _ hroot).mpr ?_
  intro name hname m hm
  have hport : name = ascii "port" := by
    by_contra hne
    simp [portRegistered, ConfigVarMap.create, ConfigVarMap.lookupBase, hne] at hname
  have hnamed : named (portRoot (ascii "port")) (ascii "port") =
      [(ascii "port", .scalar (ascii "80"))] := by
    rw [named, members_portRoot]
    rfl
  rw [hport, hnamed] at hm ⊢
  cases hm
  exact ⟨_, rfl, rfl⟩

/-- With a capital letter it is not. -/
theorem loadFromYaml_capital :
    KeysNamed (portRoot (ascii "Port")) ∧
      loadFromYaml portRegistered (fun _ => []) (portRoot (ascii "Port")) = [] ∧
      ¬LoadsNamed portRegistered (fun _ => []) (portRoot (ascii "Port"))
        (loadFromYaml portRegistered (fun _ => []) (portRoot (ascii "Port"))) := by
  have hcalls : loadFromYaml portRegistered (fun _ => []) (portRoot (ascii "Port")) = [] := by
    rw [loadFromYaml, listAllYamlMember_eq, members_portRoot]
    rfl
  refine ⟨keysNamed_portRoot (by decide), hcalls, fun h => ?_⟩
  have hlast := h.last (ascii "port") rfl
  rw [hcalls, named, members_portRoot] at hlast
  cases hlast

end CppServerFramework.Config
