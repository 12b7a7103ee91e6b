import CppServerFramework.Log.LogIniter

/-!
# The log configuration as text

`ConfigCast` between `std::set<LogDefine>` and YAML text (`log.cpp:631-725`).  Both directions
work on a tree of nodes; between the tree and the text stand `operator<<` and `YAML::Load` of
yaml-cpp.
-/

namespace CppServerFramework.Log

/-- A `YAML::Node`; the entries of a map are in the order in which they were set. -/
inductive YamlNode where
  | null
  | scalar (s : List UInt8)
  | seq (items : List YamlNode)
  | map (entries : List (String × YamlNode))

namespace YamlNode

/-- The value of a key. -/
def lookup (key : String) : List (String × YamlNode) → Option YamlNode
  | [] => none
  | e :: entries => if e.1 = key then some e.2 else lookup key entries

/-- `n[key] = value` -/
def setKey (key : String) (value : YamlNode) : List (String × YamlNode) → List (String × YamlNode)
  | [] => [(key, value)]
  | e :: entries => if e.1 = key then (key, value) :: entries else e :: setKey key value entries

/-- `node.push_back(n)` -/
def pushBack (node n : YamlNode) : YamlNode :=
  match node with
  | .seq items => .seq (items ++ [n])
  | _ => .seq [n]

/-- `n[key].push_back(value)` -/
def pushAt (key : String) (entries : List (String × YamlNode)) (value : YamlNode) :
    List (String × YamlNode) :=
  setKey key (((lookup key entries).getD .null).pushBack value) entries

/-- `n[key]`, with `none` inside where `IsDefined()` is false.  A scalar has no keys and throws. -/
def getKey (key : String) : YamlNode → Option (Option YamlNode)
  | .scalar _ => none
  | .map entries => some (lookup key entries)
  | _ => some none

/-- `as<std::string>()`, which throws on anything but a scalar. -/
def asString : YamlNode → Option (List UInt8)
  | .scalar s => some s
  | _ => none

/-- `node[0]` to `node[node.size() - 1]`.  A key that a map does not have gives an undefined node,
    which has no keys. -/
def items : YamlNode → List YamlNode
  | .seq items => items
  | .map entries => (List.range entries.length).map fun i =>
    (lookup (toString i) entries).getD .null
  | _ => []

end YamlNode

open YamlNode

/-- `LogLevel::toString` (`log.cpp:33-50`) -/
def LogLevel.toString : LogLevel → List UInt8
  | .debug => str "DEBUG"
  | .info => str "INFO"
  | .warn => str "WARN"
  | .error => str "ERROR"
  | .fatal => str "FATAL"

/-- `std::toupper` -/
def toUpper (c : UInt8) : UInt8 := if 97 ≤ c ∧ c ≤ 122 then c - 32 else c

/-- `LogLevel::FromString` (`log.cpp:51-63`) -/
def LogLevel.fromString (s : List UInt8) : LogLevel :=
  let upperStr := s.map toUpper
  if upperStr = str "DEBUG" then .debug
  else if upperStr = str "INFO" then .info
  else if upperStr = str "WARN" then .warn
  else if upperStr = str "ERROR" then .error
  else if upperStr = str "FATAL" then .fatal
  else .debug

/-! ## From text -/

/-- One turn of the loop over `n["appenders"]` (`log.cpp:656-681`).  There is no result where
    yaml-cpp throws, and none inside where the entry is skipped with a message. -/
def LogAppenderDefine.decode (a : YamlNode) : Option (Option LogAppenderDefine) := do
  let some type ← a.getKey "type" | some none
  let type ← type.asString
  if type = str "FileLogAppender" then
    let some file ← a.getKey "file" | some none
    let file ← file.asString
    let formatter ← match ← a.getKey "formatter" with
      | some formatter => formatter.asString
      | none => some []
    some (some { type := 1, file := file, formatter := formatter })
  else if type = str "StdoutLogAppender" then some (some { type := 2 })
  else some none

/-- One turn of the loop over the definitions (`log.cpp:640-685`). -/
def LogDefine.decode (n : YamlNode) : Option (Option LogDefine) := do
  let some name ← n.getKey "name" | some none
  let name ← name.asString
  let level ← match ← n.getKey "level" with
    | some level => level.asString
    | none => some []
  let formatter ← match ← n.getKey "formatter" with
    | some formatter => formatter.asString
    | none => some []
  let appenders ← match ← n.getKey "appenders" with
    | some appenders => appenders.items.mapM LogAppenderDefine.decode
    | none => some []
  some (some
    { name := name, level := LogLevel.fromString level, formatter := formatter,
      appenders := appenders.filterMap id })

/-- `ConfigCast<std::string, std::set<LogDefine>>`, behind `YAML::Load`. -/
def LogDefines.decode (node : YamlNode) : Option (List LogDefine) := do
  let defs ← node.items.mapM LogDefine.decode
  some ((defs.filterMap id).foldl (fun vec ld => OrderedSet.insert LogDefine.less ld vec) [])

/-! ## To text -/

/-- `log.cpp:704-716` -/
def LogAppenderDefine.encode (a : LogAppenderDefine) : YamlNode :=
  let na := if a.type = 1 then
      setKey "file" (.scalar a.file) (setKey "type" (.scalar (str "FileLogAppender")) [])
    else if a.type = 2 then setKey "type" (.scalar (str "StdoutLogAppender")) []
    else []
  let na := setKey "level" (.scalar a.level.toString) na
  .map (if a.formatter ≠ [] then setKey "formatter" (.scalar a.formatter) na else na)

/-- `log.cpp:696-718`; the formatter goes where the level was. -/
def LogDefine.encode (i : LogDefine) : YamlNode :=
  let n := setKey "level" (.scalar i.level.toString) (setKey "name" (.scalar i.name) [])
  let n := if i.formatter ≠ [] then setKey "level" (.scalar i.formatter) n else n
  .map ((i.appenders.map LogAppenderDefine.encode).foldl (pushAt "appenders") n)

/-- `ConfigCast<std::set<LogDefine>, std::string>`, before `operator<<`. -/
def LogDefines.encode (v : LogDefines) : YamlNode :=
  (v.defs.map LogDefine.encode).foldl pushBack .null

/-! ## What comes back -/

/-- An appender that has been to text and back. -/
def LogAppenderDefine.survivor (a : LogAppenderDefine) : LogAppenderDefine :=
  if a.type = 1 then { type := 1, file := a.file, formatter := a.formatter } else { type := 2 }

/-- A definition that has been to text and back. -/
def LogDefine.survivor (i : LogDefine) : LogDefine where
  name := i.name
  level := if i.formatter = [] then i.level else LogLevel.fromString i.formatter
  appenders := i.appenders.map LogAppenderDefine.survivor

/-- The appender is written to a file or to the standard output. -/
def LogAppenderDefine.Known (a : LogAppenderDefine) : Prop := a.type = 1 ∨ a.type = 2

theorem fromString_toString (l : LogLevel) : LogLevel.fromString l.toString = l := by
  cases l <;> decide +kernel

theorem stdout_ne_file : str "StdoutLogAppender" ≠ str "FileLogAppender" := by decide +kernel

theorem lookup_setKey (k key : String) (value : YamlNode) (entries : List (String × YamlNode)) :
    lookup k (setKey key value entries) = if k = key then some value else lookup k entries := by
  induction entries with
  | nil => simp [setKey, lookup, eq_comm]
  | cons e entries ih =>
    rw [setKey]
    split
    · next heq =>
      by_cases hk : k = key
      · simp [lookup, hk]
      · have hne : ¬key = k := fun h => hk h.symm
        simp [lookup, hk, hne, heq]
    · next hne =>
      rw [lookup, ih, lookup]
      by_cases hk : k = key
      · simp [hk, hne]
      · simp [hk]

theorem lookup_pushAt {k : String} {entries : List (String × YamlNode)} {items : List YamlNode}
    (hk : k ≠ "appenders") :
    lookup k (items.foldl (pushAt "appenders") entries) = lookup k entries := by
  induction items generalizing entries with
  | nil => rfl
  | cons a items ih =>
    rw [List.foldl_cons, ih, pushAt, lookup_setKey, if_neg hk]

/-- A loop over encoded values in which no turn throws. -/
theorem mapM_map_some {α β γ : Type} {f : α → β} {g : β → Option γ} {k : α → γ} {l : List α}
    (h : ∀ a ∈ l, g (f a) = some (k a)) : (l.map f).mapM g = some (l.map k) := by
  induction l with
  | nil => rfl
  | cons a l ih =>
    rw [List.map_cons, List.mapM_cons, h a (by simp), ih fun b hb => h b (by simp [hb])]
    rfl

/-- A loop over values none of which is skipped. -/
theorem filterMap_map_some {α γ : Type} (k : α → γ) (l : List α) :
    (l.map fun a => some (k a)).filterMap id = l.map k := by
  induction l with
  | nil => rfl
  | cons a l ih =>
    rw [List.map_cons, List.filterMap_cons, ih]
    rfl

theorem map_eq_self {α : Type} {f : α → α} {l : List α} : l.map f = l ↔ ∀ a ∈ l, f a = a := by
  have hid : l.map f = l.map id ↔ ∀ a ∈ l, f a = id a := List.map_inj_left
  rwa [List.map_id] at hid

theorem foldl_pushBack (items rest : List YamlNode) :
    rest.foldl pushBack (.seq items) = .seq (items ++ rest) := by
  induction rest generalizing items with
  | nil => simp
  | cons a rest ih =>
    rw [List.foldl_cons, pushBack, ih, List.append_assoc]
    rfl

theorem items_foldl_pushBack (items : List YamlNode) :
    (items.foldl pushBack .null).items = items := by
  cases items with
  | nil => rfl
  | cons a items =>
    rw [List.foldl_cons, pushBack, foldl_pushBack]
    · rfl
    · rintro l ⟨⟩

theorem lookup_appenders {entries : List (String × YamlNode)} (items : List YamlNode)
    (h : lookup "appenders" entries = none) :
    lookup "appenders" (items.foldl (pushAt "appenders") entries) =
      if items = [] then none else some (.seq items) := by
  have hmore : ∀ (rest done : List YamlNode) (es : List (String × YamlNode)),
      lookup "appenders" es = some (.seq done) →
      lookup "appenders" (rest.foldl (pushAt "appenders") es) = some (.seq (done ++ rest)) := by
    intro rest
    induction rest with
    | nil => simp
    | cons a rest ih =>
      intro done es hes
      rw [List.foldl_cons, ih (done ++ [a])]
      · simp
      · simp [pushAt, lookup_setKey, hes, pushBack]
  cases items with
  | nil => simpa using h
  | cons a items =>
    rw [List.foldl_cons, hmore items [a]]
    · simp
    · simp [pushAt, lookup_setKey, h, pushBack]

theorem LogAppenderDefine.decode_encode {a : LogAppenderDefine} (h : a.Known) :
    LogAppenderDefine.decode a.encode = some (some a.survivor) := by
  by_cases hfile : a.type = 1
  · by_cases hf : a.formatter = [] <;>
      simp [encode, decode, survivor, getKey, lookup_setKey, lookup, asString, hfile, hf]
  · have hstdout : a.type = 2 := h.resolve_left hfile
    have htype : a.encode.getKey "type" = some (some (.scalar (str "StdoutLogAppender"))) := by
      by_cases hf : a.formatter = [] <;>
        simp [encode, getKey, lookup_setKey, hstdout, hf]
    simp [decode, htype, asString, stdout_ne_file, survivor, hfile]

/-- The entries of an encoded definition, in front of its appenders. -/
theorem LogDefine.lookup_encode (i : LogDefine) {k : String} (hk : k ≠ "appenders") :
    i.encode.getKey k = some (if k = "name" then some (.scalar i.name)
      else if k = "level" then
        some (.scalar (if i.formatter = [] then i.level.toString else i.formatter))
      else none) := by
  rw [encode, getKey, lookup_pushAt hk]
  by_cases hf : i.formatter = []
  · by_cases hname : k = "name" <;> by_cases hlevel : k = "level" <;>
      simp_all [lookup_setKey, lookup]
  · by_cases hname : k = "name" <;> by_cases hlevel : k = "level" <;>
      simp_all [lookup_setKey, lookup]

theorem LogDefine.appenders_encode (i : LogDefine) :
    i.encode.getKey "appenders" = some (if i.appenders = [] then none
      else some (.seq (i.appenders.map LogAppenderDefine.encode))) := by
  rw [encode, getKey, lookup_appenders]
  · simp
  · by_cases hf : i.formatter = [] <;> simp [lookup_setKey, lookup, hf]

theorem LogDefine.decode_encode {i : LogDefine} (h : ∀ a ∈ i.appenders, a.Known) :
    LogDefine.decode i.encode = some (some i.survivor) := by
  have hloop : (i.appenders.map LogAppenderDefine.encode).mapM LogAppenderDefine.decode =
      some (i.appenders.map fun a => some a.survivor) :=
    mapM_map_some fun a ha => LogAppenderDefine.decode_encode (h a ha)
  have hlevel : LogLevel.fromString (if i.formatter = [] then i.level.toString else i.formatter) =
      i.survivor.level := by
    rw [survivor]
    split
    · exact fromString_toString i.level
    · rfl
  rw [decode, LogDefine.lookup_encode i (by decide), LogDefine.lookup_encode i (by decide),
    LogDefine.lookup_encode i (by decide), LogDefine.appenders_encode]
  by_cases happenders : i.appenders = []
  · simp [happenders, asString, hlevel, survivor]
  · simp [happenders, asString, items, hloop, hlevel]
    rfl

/-- The whole way, in front of and behind the text. -/
theorem LogDefines.decode_encode {v : LogDefines} (h : ∀ i ∈ v.defs, ∀ a ∈ i.appenders, a.Known) :
    LogDefines.decode v.encode = some (v.defs.map LogDefine.survivor) := by
  have hloop : (v.defs.map LogDefine.encode).mapM LogDefine.decode =
      some (v.defs.map fun i => some i.survivor) :=
    mapM_map_some fun i hi => LogDefine.decode_encode (h i hi)
  have hkept := filterMap_map_some LogDefine.survivor v.defs
  have hsorted : OrderedSet.Sorted LogDefine.less (v.defs.map LogDefine.survivor) :=
    List.pairwise_map.mpr v.sorted
  rw [decode, encode, items_foldl_pushBack]
  simp only [Option.bind_eq_bind, Option.bind_some, hloop, hkept]
  rw [hsorted.foldl_insert LogDefine.less_strictOrder]

/-- What text keeps of an appender: no level, and of one for the standard output its type only. -/
def LogAppenderDefine.Plain (a : LogAppenderDefine) : Prop :=
  a.level = .debug ∧ (a.type = 2 → a.formatter = [] ∧ a.file = [])

instance (a : LogAppenderDefine) : Decidable a.Plain := inferInstanceAs (Decidable (_ ∧ (_ → _)))

theorem LogAppenderDefine.survivor_eq {a : LogAppenderDefine} (h : a.Known) :
    a.survivor = a ↔ a.Plain := by
  obtain ⟨type, level, formatter, file⟩ := a
  rcases h with rfl | rfl
  · simp [survivor, Plain, eq_comm]
  · simp [survivor, Plain, eq_comm]

theorem LogDefine.survivor_eq {i : LogDefine} (h : ∀ a ∈ i.appenders, a.Known) :
    i.survivor = i ↔ i.formatter = [] ∧ ∀ a ∈ i.appenders, a.Plain := by
  have happenders : i.appenders.map LogAppenderDefine.survivor = i.appenders ↔
      ∀ a ∈ i.appenders, a.Plain := by
    rw [map_eq_self]
    exact forall₂_congr fun a ha => LogAppenderDefine.survivor_eq (h a ha)
  obtain ⟨name, level, formatter, appenders⟩ := i
  by_cases hformatter : formatter = []
  · simpa [survivor, hformatter] using happenders
  · simp [survivor, hformatter, eq_comm]

/-- Where the tree passes through the text unchanged, a configuration comes back if and only if
    no logger has a formatter and no appender has more than text keeps. -/
theorem LogDefines.codec_iff (dump : YamlNode → List UInt8) (load : List UInt8 → YamlNode)
    (v : LogDefines) (hyaml : load (dump v.encode) = v.encode)
    (hknown : ∀ i ∈ v.defs, ∀ a ∈ i.appenders, a.Known) :
    LogDefines.decode (load (dump v.encode)) = some v.defs ↔
      ∀ i ∈ v.defs, i.formatter = [] ∧ ∀ a ∈ i.appenders, a.Plain := by
  rw [hyaml, decode_encode hknown, Option.some_inj, map_eq_self]
  exact forall₂_congr fun i hi => LogDefine.survivor_eq (hknown i hi)

namespace LogDefines

/-- One logger with a file and the standard output. -/
def twoAppenders : LogDefines where
  defs := [{
    name := str "system"
    level := .error
    appenders := [
      { type := 1, formatter := str "%m%n", file := str "system.log" },
      { type := 2 }] }]
  sorted := List.pairwise_singleton _ _

/-- The text of its tree. -/
def twoAppendersText : List UInt8 :=
  str "- name: system\n  level: ERROR\n  appenders:\n    - type: FileLogAppender\n" ++
    str "      file: system.log\n      level: DEBUG\n      formatter: \"%m%n\"\n" ++
    str "    - type: StdoutLogAppender\n      level: DEBUG"

theorem codec_twoAppenders :
    LogDefines.decode ((fun _ => twoAppenders.encode) twoAppendersText) =
      some twoAppenders.defs := by
  refine (codec_iff (fun _ => twoAppendersText) (fun _ => twoAppenders.encode) twoAppenders rfl
    ?_).mpr ?_
  · intro i hi a ha
    simp only [twoAppenders, List.mem_singleton] at hi
    subst hi
    simp only [List.mem_cons, List.not_mem_nil, or_false] at ha
    rcases ha with rfl | rfl
    · exact Or.inl rfl
    · exact Or.inr rfl
  · decide

/-- One logger with a formatter. -/
def withFormatter : LogDefines where
  defs := [{ name := str "system", level := .error, formatter := str "%m%n" }]
  sorted := List.pairwise_singleton _ _

theorem formatter_lost : ¬∀ (dump : YamlNode → List UInt8) (load : List UInt8 → YamlNode)
    (v : LogDefines), load (dump v.encode) = v.encode →
      (∀ i ∈ v.defs, ∀ a ∈ i.appenders, a.Known) →
      LogDefines.decode (load (dump v.encode)) = some v.defs := by
  intro h
  have hdecode := h (fun _ => str "- name: system\n  level: \"%m%n\"")
    (fun _ => withFormatter.encode) withFormatter rfl (by simp [withFormatter])
  have hsurvivor : withFormatter.defs.map LogDefine.survivor = withFormatter.defs := by
    rw [decode_encode (by simp [withFormatter])] at hdecode
    exact Option.some.inj hdecode
  revert hsurvivor
  decide +kernel

end LogDefines

end CppServerFramework.Log
