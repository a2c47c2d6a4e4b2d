import YamlWeave.Proofs.Codec
import YamlWeave.Proofs.Value.TagFree

/-!
# Options in a configuration

Options are read from any mapping that has their entries somewhere among its own. An entry that says
what holds anyway may be left out (`Options.StandsIn`). No other mapping is read as these options,
so what is read is settled by what the mapping has under the two names (`decode_options_eq_ok`).
-/

set_option autoImplicit false

namespace YamlWeave

open Value

namespace Entries

variable {entries : Entries} {name : String} {value : Value}

/-- All keys are strings. -/
def Named (entries : Entries) : Prop :=
  ∀ entry ∈ entries, ∃ name, entry.1 = .string name

theorem named_cons {entry : Value × Value} :
    Named (entry :: entries) ↔ Named [entry] ∧ Named entries := by
  simp [Named]

/-- A string is the same as itself only, so a key that is a string is found by equality. -/
theorem string_same {v : Value} : (string name).same v = true ↔ v = string name := by
  cases v with
  | string other => simpa [same] using eq_comm
  | _ => simp [same]

/-- What is looked up under a string is the one value under this key. Distinct keys make it the one
value, wherever the entry stands. -/
theorem get?_string_eq_some (h : Distinct entries) :
    get? (string name) entries = some value ↔ (string name, value) ∈ entries := by
  induction entries with
  | nil => simp
  | cons entry entries ih =>
    obtain ⟨key, other⟩ := entry
    obtain ⟨hdiffers, hrest⟩ := List.pairwise_cons.mp h
    rw [get?_cons, List.mem_cons, Prod.mk.injEq]
    by_cases hkey : key = string name
    · subst hkey
      have hnone : (string name, value) ∉ entries := fun hmem =>
        Bool.false_ne_true ((hdiffers _ hmem).symm.trans (string_same.mpr rfl))
      rw [if_pos (string_same.mpr rfl), Option.some.injEq, or_iff_left hnone]
      simp [eq_comm]
    · rw [if_neg (mt string_same.mp hkey), ih hrest]
      simp [Ne.symm hkey]

theorem get?_string_eq_none :
    get? (string name) entries = none ↔ ∀ entry ∈ entries, entry.1 ≠ string name := by
  rw [get?_eq_none, contains_eq_false]
  refine forall₂_congr fun entry _ => ?_
  rw [← Bool.not_eq_true, string_same]

/-- A string is not the key of an entry and of a later one. So a field that is read twice is found
missing once at least (`readField_or`). -/
theorem get?_string_cons_once {entry : Value × Value} (h : Distinct (entry :: entries))
    (name : String) : get? (string name) [entry] = none ∨ get? (string name) entries = none := by
  obtain ⟨hdiffers, -⟩ := List.pairwise_cons.mp h
  rw [or_iff_not_imp_right, get?_string_eq_none, get?_string_eq_none, List.forall_mem_singleton]
  intro hlater hkey
  refine hlater fun later hmem hsame => Bool.false_ne_true ?_
  rw [← hdiffers later hmem, hsame, hkey]
  exact string_same.mpr rfl

end Entries

/-- The entries that options are written as. -/
def Options.entries (o : Options) : Entries :=
  (Codec.options.encode o).entries

/-- Entries stand for options when they have the entries that the options are written as, in any
place and among any others. An entry of the standard options may be missing. -/
def Options.StandsIn (o : Options) (entries : Entries) : Prop :=
  ∀ entry ∈ o.entries, entry ∈ entries ∨
    entry ∈ Options.standard.entries ∧ ∀ other ∈ entries, other.1 ≠ entry.1

namespace Codec

open Entries

variable {α : Type} {codec : Codec α} {entries : Entries} {o start : Options} {name : String}
  {key value : Value}

/-! ## Fields -/

/-- An exact codec writes different things differently, since each is read back from what it is
written as. -/
theorem Exact.encode_inj (h : codec.Exact fun _ => True) {a b : α} :
    codec.encode a = codec.encode b ↔ a = b := by
  refine ⟨fun hab => ?_, congrArg _⟩
  have ha := (h _ a).mpr ⟨trivial, rfl⟩
  have hb := (h _ b).mpr ⟨trivial, hab⟩
  exact Except.ok.inj (ha.symm.trans hb)

/-- Paths are written as they are spelled, and every string is read as a path. -/
theorem exact_path : path.Exact fun _ => True := by
  intro v p
  obtain ⟨text⟩ := p
  cases v <;> simp [path]

/-- What may be left out is read as it is written, where only what is left out is written as null.
Without this hypothesis null would stand for two things. -/
theorem exact_optional (h : codec.Exact fun _ => True)
    (hnull : ∀ thing, codec.encode thing ≠ .null) : (optional codec).Exact fun _ => True := by
  intro v thing
  rw [true_and]
  by_cases hv : v = .null
  · subst hv
    cases thing with
    | none => exact iff_of_true rfl rfl
    | some thing => exact iff_of_false nofun (hnull thing).symm
  · have hdecode : (optional codec).decode v = some <$> codec.decode v := by
      cases v with
      | null => exact absurd rfl hv
      | _ => rfl
    rw [hdecode, map_eq_ok]
    cases thing with
    | none =>
      refine iff_of_false ?_ hv
      rintro ⟨_, -, hsome⟩
      cases hsome
    | some thing =>
      simp only [h v, true_and, Option.some.injEq]
      exact exists_eq_right

/-- The root of options is such a codec, because a path is never written as null. -/
theorem exact_root : (optional path).Exact fun _ => True :=
  exact_optional exact_path fun _ => nofun

/-- What a field is read as. One that is not there is at its default. -/
def readField (codec : Codec α) (default : α) : Option Value → Except Mismatch α
  | none => .ok default
  | some value => codec.decode value

/-- A field is read as a thing when it is written as the thing, or when it is missing and the thing
is the default. The two are not alike where the default is written too. -/
theorem readField_eq_ok (h : codec.Exact fun _ => True) {default thing : α}
    {found : Option Value} : readField codec default found = .ok thing ↔
      found = some (codec.encode thing) ∨ found = none ∧ thing = default := by
  cases found with
  | none => simpa [readField] using eq_comm
  | some value => simp [readField, h value thing]

/-- Options with one more entry of their record read. -/
def readOption (options : Options) (entry : Value × Value) : Except Mismatch Options := do
  match ← field entry.1 with
  | "root" => return { options with root := ← (optional path).decode entry.2 }
  | "merge_keys" => return { options with mergeKeys := ← bool.decode entry.2 }
  | _ => .ok options

/-- Options are read by going through the entries, from the standard options on. -/
theorem decode_options : options.decode (.mapping entries) = entries.foldlM readOption .standard :=
  rfl

theorem readOption_root : readOption start (.string "root", value) =
    (fun root => { start with root }) <$> (optional path).decode value :=
  rfl

theorem readOption_mergeKeys : readOption start (.string "merge_keys", value) =
    (fun mergeKeys => { start with mergeKeys }) <$> bool.decode value :=
  rfl

/-- An entry of another name is passed over, whatever its value is. So a configuration may say more
than options. -/
theorem readOption_other (hroot : name ≠ "root") (hmerge : name ≠ "merge_keys") :
    readOption start (.string name, value) = .ok start := by
  show (match name with
    | "root" => _
    | "merge_keys" => _
    | _ => _) = _
  split
  · exact absurd rfl hroot
  · exact absurd rfl hmerge
  · rfl

/-- A key that is no string is refused, be the rest as it may. -/
theorem readOption_of_not_string (h : ∀ name, key ≠ .string name) (done : Options) :
    readOption start (key, value) ≠ .ok done := by
  cases key with
  | string name => exact absurd rfl (h name)
  | _ => exact nofun

/-- One entry is read as a field, and the other field stays as it is. Both fields are described by
what is looked up in this one entry, so the law of the whole mapping has the same form
(`foldlM_readOption_eq_ok`). -/
theorem readOption_eq_ok {entry : Value × Value} :
    readOption start entry = .ok o ↔ Named [entry] ∧
      readField (optional path) start.root (get? (.string "root") [entry]) = .ok o.root ∧
      readField bool start.mergeKeys (get? (.string "merge_keys") [entry]) =
        .ok o.mergeKeys := by
  obtain ⟨key, value⟩ := entry
  obtain ⟨root, mergeKeys⟩ := start
  obtain ⟨root', mergeKeys'⟩ := o
  have hnamed : Named [(key, value)] ↔ ∃ name, key = .string name := List.forall_mem_singleton
  rw [hnamed]
  by_cases hkey : ∃ name, key = .string name
  · obtain ⟨name, rfl⟩ := hkey
    rw [and_iff_right ⟨name, rfl⟩]
    simp only [get?_cons, get?_nil, Value.same, beq_iff_eq]
    by_cases hroot : name = "root"
    · subst hroot
      rw [readOption_root, map_eq_ok]
      simp [readField]
    · by_cases hmerge : name = "merge_keys"
      · subst hmerge
        rw [readOption_mergeKeys, map_eq_ok]
        simpa [readField] using and_comm
      · rw [readOption_other hroot hmerge, if_neg (Ne.symm hroot), if_neg (Ne.symm hmerge)]
        simp [readField]
  · refine iff_of_false (readOption_of_not_string ?_ _) (fun h => hkey h.1)
    exact fun name hname => hkey ⟨name, hname⟩

/-- Where a name occurs once at most, a field is read from the one part or the other. It is the step
of the induction over entries, with the field so far as the default. -/
theorem readField_or {default thing : α} {found other : Option Value}
    (h : found = none ∨ other = none) : readField codec default (found.or other) = .ok thing ↔
      ∃ read, readField codec default found = .ok read ∧
        readField codec read other = .ok thing := by
  rcases h with rfl | rfl
  · simp [readField]
  · cases found <;> simp [readField]

/-- A mapping is read as options exactly when all of its keys are strings and what it has under the
two names is read as the fields. Keys have to be distinct, as with a name twice the last entry would
count. -/
theorem foldlM_readOption_eq_ok (h : entries.Distinct) :
    entries.foldlM readOption start = .ok o ↔ entries.Named ∧
      readField (optional path) start.root (get? (.string "root") entries) = .ok o.root ∧
      readField bool start.mergeKeys (get? (.string "merge_keys") entries) = .ok o.mergeKeys := by
  induction entries generalizing start with
  | nil =>
    obtain ⟨root, mergeKeys⟩ := start
    obtain ⟨root', mergeKeys'⟩ := o
    simp [Named, readField, pure, Except.pure]
  | cons entry entries ih =>
    have honce := get?_string_cons_once h
    have hget (name : String) : get? (.string name) (entry :: entries) =
        (get? (.string name) [entry]).or (get? (.string name) entries) :=
      get?_append _ [entry] entries
    rw [List.foldlM_cons, bind_eq_ok, named_cons, hget, hget, readField_or (honce _),
      readField_or (honce _)]
    simp only [ih (List.pairwise_cons.mp h).2, readOption_eq_ok]
    constructor
    · rintro ⟨next, ⟨hfirst, hroot, hmerge⟩, hnamed, hroot', hmerge'⟩
      exact ⟨⟨hfirst, hnamed⟩, ⟨_, hroot, hroot'⟩, ⟨_, hmerge, hmerge'⟩⟩
    · rintro ⟨⟨hfirst, hnamed⟩, ⟨root, hroot, hroot'⟩, ⟨mergeKeys, hmerge, hmerge'⟩⟩
      exact ⟨⟨root, mergeKeys⟩, ⟨hfirst, hroot, hmerge⟩, hnamed, hroot', hmerge'⟩

/-! ## Options -/

/-- A field is at its entry, or at the default where the entry is missing. This turns looking up
into being there, which knows no order. -/
theorem readField_eq_ok_iff_mem (h : codec.Exact fun _ => True) (hdistinct : Distinct entries)
    {default thing : α} :
    readField codec default (get? (.string name) entries) = .ok thing ↔
      (.string name, codec.encode thing) ∈ entries ∨
        thing = default ∧ ∀ entry ∈ entries, entry.1 ≠ .string name := by
  rw [readField_eq_ok h, get?_string_eq_some hdistinct, get?_string_eq_none]
  exact or_congr_right and_comm

/-- Options stand in entries when each of their two entries does. Only an entry at its default may
be missing. -/
theorem standsIn_iff : o.StandsIn entries ↔
    ((.string "root", (optional path).encode o.root) ∈ entries ∨
      o.root = none ∧ ∀ entry ∈ entries, entry.1 ≠ .string "root") ∧
    ((.string "merge_keys", bool.encode o.mergeKeys) ∈ entries ∨
      o.mergeKeys = true ∧ ∀ entry ∈ entries, entry.1 ≠ .string "merge_keys") := by
  have hwritten (o : Options) : o.entries = [(.string "root", (optional path).encode o.root),
    (.string "merge_keys", bool.encode o.mergeKeys)] := rfl
  rw [Options.StandsIn, hwritten, hwritten, List.forall_mem_cons, List.forall_mem_singleton]
  simp [exact_root.encode_inj, exact_bool.encode_inj, Options.standard]

/-- A mapping is read as options exactly when all of its keys are strings and it stands for the
options. Other entries and the order of all of them are left open. -/
theorem decode_options_eq_ok (h : Distinct entries) :
    options.decode (.mapping entries) = .ok o ↔ Named entries ∧ o.StandsIn entries := by
  rw [decode_options, foldlM_readOption_eq_ok h, readField_eq_ok_iff_mem exact_root h,
    readField_eq_ok_iff_mem exact_bool h, standsIn_iff]
  rfl

/-- What is under the two names when options are read. Null under the name of the root is the same
as no root, while null for merge keys is refused. -/
theorem fields_of_standsIn (h : o.StandsIn entries) (hdistinct : Distinct entries) :
    (get? (.string "root") entries = none ∨ get? (.string "root") entries = some .null ∨
      ∃ text, get? (.string "root") entries = some (.string text)) ∧
    (get? (.string "merge_keys") entries = none ∨
      ∃ b, get? (.string "merge_keys") entries = some (.bool b)) := by
  obtain ⟨hroot, hmerge⟩ := standsIn_iff.mp h
  rw [← get?_string_eq_some hdistinct, ← get?_string_eq_none] at hroot hmerge
  constructor
  · rcases hroot with hroot | ⟨-, hroot⟩
    · cases hpath : o.root with
      | none => exact .inr (.inl (by rw [hroot, hpath]; rfl))
      | some path => exact .inr (.inr ⟨path.text, by rw [hroot, hpath]; rfl⟩)
    · exact .inl hroot
  · rcases hmerge with hmerge | ⟨-, hmerge⟩
    · exact .inr ⟨o.mergeKeys, hmerge⟩
    · exact .inl hmerge

/-- Whether a mapping stands for options is settled by what it has under the two names. So two
configurations that agree there are read as the same options. -/
theorem standsIn_congr {others : Entries} (h : Distinct entries) (hothers : Distinct others)
    (hroot : get? (.string "root") others = get? (.string "root") entries)
    (hmerge : get? (.string "merge_keys") others = get? (.string "merge_keys") entries) :
    o.StandsIn others ↔ o.StandsIn entries := by
  rw [standsIn_iff, standsIn_iff, ← get?_string_eq_some h, ← get?_string_eq_some h,
    ← get?_string_eq_some hothers, ← get?_string_eq_some hothers, ← get?_string_eq_none,
    ← get?_string_eq_none, ← get?_string_eq_none, ← get?_string_eq_none, hroot, hmerge]

end Codec

/-- What options are read from: null stands for the standard ones, and a mapping of strings for
those that have their entries in it. -/
inductive Options.StandsFor (o : Options) : Value → Prop
  | null (h : o = .standard) : o.StandsFor .null
  | mapping {entries : Entries} (hnamed : entries.Named) (h : o.StandsIn entries) :
    o.StandsFor (.mapping entries)

/-- Options are read from null and from mappings of strings, and from each of these exactly those
that it stands for. The value has to have distinct keys, as every loaded document does. This is the
law that a typed load of options takes its check from. -/
theorem Codec.decode_options_iff_standsFor {o : Options} {v : Value} (h : v.Distinct) :
    Codec.options.decode v = .ok o ↔ o.StandsFor v := by
  cases v with
  | null =>
    constructor
    · rintro ⟨⟩
      exact .null rfl
    · rintro ⟨rfl⟩
      rfl
  | mapping entries =>
    rw [decode_options_eq_ok h.entries]
    exact ⟨fun ⟨hnamed, hstands⟩ => .mapping hnamed hstands, fun
      | .mapping hnamed hstands => ⟨hnamed, hstands⟩⟩
  | _ => exact iff_of_false nofun nofun

/-- **Options survive in any configuration.** A mapping whose distinct keys are strings is read as
the options whose entries it has, wherever these stand and whatever else there is, and an entry at
its default may be missing. A mapping without tags that is read as options has strings for its keys,
a path, null or nothing as the root, and true, false or nothing for the merge keys, and every
mapping with the same under these two names is read as the same options. A typed load of options
adds this check to the load. -/
theorem options_survive_in_any_configuration :
    (∀ (o : Options) (entries : Entries), entries.Distinct → entries.Named → o.StandsIn entries →
      Codec.options.decode (.mapping entries) = .ok o) ∧
    (∀ (o : Options) (entries : Entries), entries.Distinct → (Value.mapping entries).TagFree →
      Codec.options.decode (.mapping entries) = .ok o → entries.Named ∧
      ((Entries.get? (.string "root") entries = none ∨
          Entries.get? (.string "root") entries = some .null ∨
          ∃ text, Entries.get? (.string "root") entries = some (.string text)) ∧
        (Entries.get? (.string "merge_keys") entries = none ∨
          ∃ b, Entries.get? (.string "merge_keys") entries = some (.bool b))) ∧
      ∀ others : Entries, others.Distinct → others.Named →
        Entries.get? (.string "root") others = Entries.get? (.string "root") entries →
        Entries.get? (.string "merge_keys") others = Entries.get? (.string "merge_keys") entries →
        Codec.options.decode (.mapping others) = .ok o) ∧
    ∀ (w : World) (source : Source), AddsTypeCheck w source .options Options.StandsFor := by
  refine ⟨?_, ?_, ?_⟩
  · intro o entries hdistinct hnamed hstands
    exact (Codec.decode_options_eq_ok hdistinct).mpr ⟨hnamed, hstands⟩
  · intro o entries hdistinct _ hread
    obtain ⟨hnamed, hstands⟩ := (Codec.decode_options_eq_ok hdistinct).mp hread
    refine ⟨hnamed, Codec.fields_of_standsIn hstands hdistinct, ?_⟩
    intro others hothers hnamed' hroot hmerge
    exact (Codec.decode_options_eq_ok hothers).mpr
      ⟨hnamed', (Codec.standsIn_congr hdistinct hothers hroot hmerge).mpr hstands⟩
  · exact fun w source =>
      Codec.addsTypeCheck (fun _ hD _ => Codec.decode_options_iff_standsFor hD) w source

/-- Options in a configuration that says more, where merge keys are left out. -/
theorem options_survive_among_settings :
    Codec.options.decode (.mapping [(.string "level", .sequence [.null]),
      (.string "root", .string "/srv"), (.string "name", .bool false)]) =
        .ok ⟨some ⟨"/srv"⟩, true⟩ := by
  refine options_survive_in_any_configuration.1 ⟨some ⟨"/srv"⟩, true⟩ _ ?_ ?_ ?_
  · unfold Entries.Distinct
    decide +kernel
  · simp [Entries.Named]
  · exact Codec.standsIn_iff.mpr ⟨.inl (by decide +kernel), .inr ⟨rfl, by decide +kernel⟩⟩

end YamlWeave
