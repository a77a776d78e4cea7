import Ferrocrate.Image.Consistency
import Ferrocrate.Image.Permits

/-! Tags (`image_tagging.rs`): how a text selects an image, how a tag is planned, and what the texts
resolve to once it is put. -/
namespace Ferrocrate.Image
open Lib
open Authorization
open Witness (Digest Hasher)

inductive ImageSelector where
  | named (value : String)
  | idPrefix (value : String)
deriving DecidableEq

def canonicalName (reference : String) : Except ImageTaggingError String :=
  match canonicalizeReference reference.toList with
  | .ok canonical => .ok (String.ofList canonical)
  | .error e => .error (.invalidReference e)

def isIdShaped (reference : String) : Bool :=
  let bare := ((stripPrefix "sha256:" reference).getD reference).toList
  4 ≤ Dockerfile.utf8Length bare && Dockerfile.utf8Length bare ≤ 64 && bare.all isAsciiHexdigit &&
    (!startsWith "sha256:" reference || Dockerfile.utf8Length bare = 64)

def normalizeSelector (reference : String) : Except ImageTaggingError ImageSelector :=
  if isIdShaped reference then
    .ok (.idPrefix (String.ofList
      (((stripPrefix "sha256:" reference).getD reference).toList.map Char.toLower)))
  else (canonicalName reference).map .named

def select (t : Tables) : ImageSelector → Except ImageTaggingError (Option ImageRecord)
  | .named canonical => .ok (t.resolveReference canonical)
  | .idPrefix idPrefix => (t.resolveIdPrefix idPrefix).mapError .store

def resolveTag (t : Tables) (reference : String) : Except ImageTaggingError (Option ImageRecord) :=
  (normalizeSelector reference).bind (select t)

def tagPlanBytes (sourceReference targetReference sourceDigest : String) (manifestDigest : Digest) :
    Bytes :=
  utf8 "ferrocrate/image-tag-plan/v1" ++
    [sourceReference, targetReference, sourceDigest].flatMap
      (fun value => toBe 8 (utf8 value).length ++ utf8 value) ++ manifestDigest.val

section Planning
variable (sha256 : Hasher)

def tagPlan (sourceReference targetReference : String) (source : ImageRecord) : ImageTagPlan where
  sourceReference := sourceReference
  targetReference := targetReference
  sourceDigest := source.digest
  manifestDigest := sha256 (utf8 source.manifestJson)
  planDigest := sha256 (tagPlanBytes sourceReference targetReference source.digest
    (sha256 (utf8 source.manifestJson)))

def prepareImageTag (t : Tables) (sourceReference targetReference : String) :
    Except ImageTaggingError ImageTagPlan := do
  let selector ← normalizeSelector sourceReference
  match ← select t selector with
  | none => .error (.sourceNotFound sourceReference)
  | some source =>
    let target ← canonicalName targetReference
    match selector with
    | .named canonical => pure (tagPlan sha256 canonical target source)
    | .idPrefix _ => pure (tagPlan sha256 source.digest target source)

end Planning

/-! ## Putting a tag -/

section Put
variable {sha256 : Hasher} {w w' : ImageWorld} {plan : ImageTagPlan} {now : UInt64}
variable {permit : SurfacePermit}

theorem throw_ne_ok {ε σ L α : Type} {e : ε} {a : α} {s t : σ} :
    Process.run (throw e : Task ε σ L α).run s ≠ (.ok a, t) :=
  fun h => nomatch (Prod.mk.inj h).1

theorem finishTag_throw_ne_ok {outcome : Witness.WitnessOutcome} {e : ImageTaggingError} :
    Process.run (do finishTagAs sha256 permit outcome; throw e :
      Task ImageTaggingError ImageWorld Moment Unit).run w ≠ (.ok (), w') := by
  intro h
  obtain ⟨_, _, _, h⟩ := Task.run_bind.mp h
  exact throw_ne_ok h

theorem run_attempt_ok {α : Type} {label : Moment} {m : Program ImageStoreError ImageWorld α}
    {r : Except ImageStoreError α}
    (h : Process.run (Task.attempt (Task.atomically label m) :
      Task ImageTaggingError ImageWorld Moment _).run w = (.ok r, w')) : m w = (r, w') := by
  obtain ⟨hr, hw⟩ := Prod.mk.inj h
  obtain rfl := Except.ok.inj hr
  rw [← hw]
  rfl

theorem executeImageTag_ok
    (h : Process.run (executeImageTagAuthorized sha256 plan now permit).run w = (.ok (), w')) :
    ∃ source, w.store.resolveReference plan.sourceReference = some source ∧
      source.digest = plan.sourceDigest ∧ sha256 (utf8 source.manifestJson) = plan.manifestDigest ∧
        w'.store = w.store.put (plan.record source now) := by
  rw [executeImageTagAuthorized] at h
  obtain ⟨_, _, h⟩ := Task.run_ofExcept_bind.mp h
  split at h
  · obtain ⟨_, _, _, h⟩ := Task.run_bind.mp h
    obtain ⟨_, _, h, _⟩ := Task.run_bind.mp h
    exact absurd h throw_ne_ok
  obtain ⟨resolved, u, hread, h⟩ := Task.run_bind.mp h
  have hread := run_attempt_ok hread
  cases resolved with
  | error e => exact absurd h finishTag_throw_ne_ok
  | ok found =>
    have hfound := (PermitWorld.locked_ok (congrArg Prod.fst hread)).2
    rw [hread] at hfound
    obtain ⟨hsource, hsame⟩ := Prod.mk.inj (Except.ok.inj hfound)
    cases found with
    | none => exact absurd h finishTag_throw_ne_ok
    | some source =>
      dsimp only at h
      split at h
      · obtain ⟨_, _, _, h⟩ := Task.run_bind.mp h
        obtain ⟨_, _, h, _⟩ := Task.run_bind.mp h
        exact absurd h throw_ne_ok
      next hbound =>
        rw [not_or, not_not, not_not] at hbound
        obtain ⟨written, v, hwrite, h⟩ := Task.run_bind.mp h
        have hwrite := run_attempt_ok hwrite
        cases written with
        | error e => exact absurd h finishTag_throw_ne_ok
        | ok written =>
          have hput := (PermitWorld.locked_ok (congrArg Prod.fst hwrite)).2
          rw [hwrite] at hput
          have hstore : u.store.put (plan.record source now) = v.store :=
            congrArg Prod.snd (Except.ok.inj hput)
          have hkeep : w'.store = v.store := by
            rw [← (Prod.mk.inj h).2]
            exact finished_store permit .succeeded _ v
          exact ⟨source, hsource, hbound.1, hbound.2, by rw [hkeep, ← hstore, ← hsame]⟩

end Put

section Lookups
variable {t : Tables} {tagged : ImageRecord} {reference idPrefix : String}

def ImageRecord.stored (record : ImageRecord) : ImageRecord := imageRecordFromRow record.row

def retag (tagged record : ImageRecord) : ImageRecord :=
  if record.digest = tagged.digest then tagged.stored else record

theorem resolveReference_put_self :
    (t.put tagged).resolveReference tagged.reference = some tagged.stored := by
  have hget : (t.put tagged).imageReferences.get tagged.reference = some tagged.row :=
    OrdMap.get_insert_self ..
  simp only [Tables.resolveReference, hget]
  rfl

theorem put_digests (h : t.Referenced) (hdigest : t.imageDigests.get tagged.digest ≠ none) :
    (t.put tagged).imageDigests =
      t.imageDigests.map fun row => if row.digest = tagged.digest then tagged.row else row := by
  refine OrdMap.ext_get fun digest => ?_
  rw [OrdMap.get_map, Tables.put, OrdMap.get_insert]
  cases hget : t.imageDigests.get digest with
  | none =>
    have hne : digest ≠ tagged.digest := by
      rintro rfl
      exact hdigest hget
    rw [if_neg hne]
    rfl
  | some row =>
    rw [Option.map_some, h.keyed digest row hget]
    split_ifs <;> rfl

theorem imageRecordFromRow_retag (row : Row) :
    imageRecordFromRow (if row.digest = tagged.digest then tagged.row else row) =
      retag tagged (imageRecordFromRow row) := by
  by_cases h : row.digest = tagged.digest
  · rw [if_pos h, retag, if_pos (show (imageRecordFromRow row).digest = tagged.digest from h)]
    rfl
  · rw [if_neg h, retag, if_neg (show (imageRecordFromRow row).digest ≠ tagged.digest from h)]

theorem resolveIdPrefix_put (h : t.Referenced)
    (hdigest : t.imageDigests.get tagged.digest ≠ none) (idPrefix : String) :
    (t.put tagged).resolveIdPrefix idPrefix =
      (t.resolveIdPrefix idPrefix).map (Option.map (retag tagged)) := by
  simp only [Tables.resolveIdPrefix, put_digests h hdigest, OrdMap.map, List.filter_map,
    Function.comp_def, ← List.map_take]
  generalize (t.imageDigests.entries.filter _).take 2 = found
  rcases found with _ | ⟨entry, _ | _⟩
  · rfl
  · exact congrArg (fun record => Except.ok (some record)) (imageRecordFromRow_retag _)
  · rfl

theorem resolveReference_put_of_get {row : Row} (hne : reference ≠ tagged.reference)
    (hget : t.imageReferences.get reference = some row) :
    (t.put tagged).resolveReference reference = t.resolveReference reference := by
  have hget' : (t.put tagged).imageReferences.get reference = some row := by
    rw [Tables.put, OrdMap.get_insert, if_neg hne, hget]
  simp only [Tables.resolveReference, hget, hget']

/-- A record that is found by the digest of the tag is now the record of the tag, under the name
that was asked for where the digest was part of a name. -/
structure Retagged (tagged old new : ImageRecord) : Prop where
  digest : old.digest = tagged.digest
  stored : new = { tagged.stored with reference := new.reference }
  reference : new.reference = tagged.reference ∨ new.reference = old.reference

theorem retag_cases (tagged old : ImageRecord) :
    retag tagged old = old ∨ Retagged tagged old (retag tagged old) := by
  by_cases h : old.digest = tagged.digest
  · rw [retag, if_pos h]
    exact .inr ⟨h, rfl, .inl rfl⟩
  · exact .inl (if_neg h)

theorem resolveReference_put_of_none (h : t.Referenced)
    (hdigest : t.imageDigests.get tagged.digest ≠ none) (hne : reference ≠ tagged.reference)
    (hnone : t.imageReferences.get reference = none) :
    (t.put tagged).resolveReference reference = t.resolveReference reference ∨
      ∃ old new, t.resolveReference reference = some old ∧
        (t.put tagged).resolveReference reference = some new ∧ Retagged tagged old new := by
  have hnone' : (t.put tagged).imageReferences.get reference = none := by
    rw [Tables.put, OrdMap.get_insert, if_neg hne, hnone]
  simp only [Tables.resolveReference, hnone, hnone', put_digests h hdigest]
  generalize (if "sha256:".toList.isPrefixOf reference.toList = true then some reference
    else (behindLastAt reference.toList).map String.ofList) = requested
  cases requested with
  | none => exact .inl rfl
  | some digest =>
    simp only [Option.bind_some, OrdMap.get_map]
    cases hrow : t.imageDigests.get digest with
    | none => exact .inl rfl
    | some row =>
      simp only [Option.map_some, imageRecordFromRow_retag]
      rcases retag_cases tagged (imageRecordFromRow row) with hsame | hretag
      · exact .inl (by rw [hsame])
      · refine .inr ⟨_, _, rfl, rfl, ?_⟩
        split
        · exact ⟨hretag.digest, by rw [hretag.stored], .inr rfl⟩
        · exact hretag

theorem select_put (h : t.Referenced) (hdigest : t.imageDigests.get tagged.digest ≠ none)
    {selector : ImageSelector} (hne : selector ≠ .named tagged.reference) :
    select (t.put tagged) selector = select t selector ∨
      ∃ old new, select t selector = .ok (some old) ∧
        select (t.put tagged) selector = .ok (some new) ∧ Retagged tagged old new ∧
          ∀ name, selector = .named name → t.imageReferences.get name = none := by
  cases selector with
  | named name =>
    have hname : name ≠ tagged.reference := fun heq => hne (heq ▸ rfl)
    cases hget : t.imageReferences.get name with
    | some row => exact .inl (congrArg Except.ok (resolveReference_put_of_get hname hget))
    | none =>
      rcases resolveReference_put_of_none h hdigest hname hget with hsame | hchanged
      · exact .inl (congrArg Except.ok hsame)
      · obtain ⟨old, new, hold, hnew, hretag⟩ := hchanged
        refine .inr ⟨old, new, congrArg Except.ok hold, congrArg Except.ok hnew, hretag, ?_⟩
        rintro _ ⟨⟩
        exact hget
  | idPrefix idPrefix =>
    simp only [select, resolveIdPrefix_put h hdigest]
    cases t.resolveIdPrefix idPrefix with
    | error e => exact .inl rfl
    | ok found =>
      cases found with
      | none => exact .inl rfl
      | some old =>
        rcases retag_cases tagged old with hsame | hretag
        · refine .inl ?_
          simp only [Except.map, Option.map_some, hsame]
        · exact .inr ⟨old, retag tagged old, rfl, rfl, hretag, fun _ heq => nomatch heq⟩

end Lookups

/-! ## Tag, then resolve -/

section Tagging
variable {sha256 : Hasher} {t : Tables} {source target name : String}
variable {plan : ImageTagPlan} {record : ImageRecord} {selector : ImageSelector}

def ImageSelector.planned (record : ImageRecord) : ImageSelector → String
  | .named canonical => canonical
  | .idPrefix _ => record.digest

theorem prepareImageTag_ok (h : prepareImageTag sha256 t source target = .ok plan) :
    ∃ selector record name, normalizeSelector source = .ok selector ∧
      select t selector = .ok (some record) ∧ canonicalName target = .ok name ∧
        plan = tagPlan sha256 (selector.planned record) name record := by
  unfold prepareImageTag at h
  cases hselector : normalizeSelector source with
  | error e =>
    rw [hselector] at h
    cases h
  | ok selector =>
    rw [hselector] at h
    cases hfound : select t selector with
    | error e =>
      simp only [bind, Except.bind, hfound] at h
      cases h
    | ok found =>
      simp only [bind, Except.bind, hfound] at h
      cases found with
      | none => cases h
      | some record =>
        cases hname : canonicalName target with
        | error e =>
          simp only [hname] at h
          cases h
        | ok name =>
          simp only [hname] at h
          refine ⟨selector, record, name, rfl, hfound, rfl, ?_⟩
          cases selector with
          | named canonical => exact (Except.ok.inj h).symm
          | idPrefix idPrefix => exact (Except.ok.inj h).symm

theorem prepareImageTag_of_select (hselector : normalizeSelector source = .ok selector)
    (hfound : select t selector = .ok (some record)) (hname : canonicalName target = .ok name) :
    prepareImageTag sha256 t source target =
      .ok (tagPlan sha256 (selector.planned record) name record) := by
  simp only [prepareImageTag, hselector, bind, Except.bind, hfound, hname]
  cases selector <;> rfl

theorem normalizeSelector_of_canonicalName (hid : isIdShaped target = false)
    (hname : canonicalName target = .ok name) : normalizeSelector target = .ok (.named name) := by
  rw [normalizeSelector, hid, hname]
  rfl

theorem digest_of_select (h : t.Referenced) (hfound : select t selector = .ok (some record)) :
    t.imageDigests.get record.digest ≠ none := by
  cases selector with
  | named canonical => exact Tables.digest_of_resolveReference h (Except.ok.inj hfound)
  | idPrefix idPrefix =>
    simp only [select] at hfound
    cases hresolve : t.resolveIdPrefix idPrefix with
    | error e =>
      rw [hresolve] at hfound
      cases hfound
    | ok found =>
      rw [hresolve] at hfound
      obtain rfl : found = some record := Except.ok.inj hfound
      exact Tables.digest_of_resolveIdPrefix h hresolve

def SameManifest (sha256 : Hasher) (found record : ImageRecord) : Prop :=
  found.manifestJson = record.manifestJson ∨
    found.manifestJson ≠ record.manifestJson ∧
      sha256 (utf8 found.manifestJson) = sha256 (utf8 record.manifestJson)

theorem referenced_of_turns (journal : Witness.WitnessJournal)
    (faults : List (Option ImageStoreError)) (turns : List Turn) :
    (turns.foldl (Clients.next sha256)
      (.initial ⟨.empty, journal, faults⟩)).tables.Referenced := by
  have hrun : Runs.Throughout (Clients.next sha256)
      (fun c => Behaved sha256 c ∧ c.tables.Referenced)
      (.initial ⟨.empty, journal, faults⟩) turns :=
    Runs.throughout_of_step (fun _ turn h => ⟨h.1.next turn, h.1.next_referenced h.2 turn⟩)
      ⟨behaved_initial _, Tables.referenced_empty⟩
  exact hrun.last.2

/-- In every state that the store reaches: a tag resolves to the digest and the manifest of its
source, unless its target has the shape of an id; and every other text resolves as before, or to
the record of the tag, as its row now is, where it found the source by its digest. -/
theorem tag_then_resolve (sha256 : Hasher) (journal : Witness.WitnessJournal)
    (faults : List (Option ImageStoreError)) (turns : List Turn) (source target : String)
    (plan : ImageTagPlan) (now : UInt64) (permit : SurfacePermit) (w w' : ImageWorld)
    (hreached : w = (turns.foldl (Clients.next sha256) (.initial ⟨.empty, journal, faults⟩)).world)
    (hplan : prepareImageTag sha256 w.store source target = .ok plan)
    (hrun : Process.run (executeImageTagAuthorized sha256 plan now permit).run w = (.ok (), w')) :
    ∃ record, resolveTag w.store source = .ok (some record) ∧
      canonicalName target = .ok plan.targetReference ∧
      (isIdShaped target = false → ∃ found, resolveTag w'.store target = .ok (some found) ∧
        found.digest = record.digest ∧ SameManifest sha256 found record) ∧
      ∃ tagged : ImageRecord, tagged.reference = plan.targetReference ∧
        w'.store.imageReferences.get plan.targetReference = some tagged.row ∧
        tagged.digest = record.digest ∧ SameManifest sha256 tagged record ∧
        ∀ other, normalizeSelector other ≠ .ok (.named plan.targetReference) →
          resolveTag w'.store other = resolveTag w.store other ∨
            ∃ old new, resolveTag w.store other = .ok (some old) ∧
              resolveTag w'.store other = .ok (some new) ∧ Retagged tagged old new ∧
                ∀ canonical, normalizeSelector other = .ok (.named canonical) →
                  w.store.imageReferences.get canonical = none := by
  have hreferenced : w.store.Referenced := by
    rw [hreached]
    exact referenced_of_turns journal faults turns
  obtain ⟨selector, record, name, hselector, hfound, hname, rfl⟩ := prepareImageTag_ok hplan
  obtain ⟨again, hagain, hdigest, hmanifest, hstore⟩ := executeImageTag_ok hrun
  have hsame : SameManifest sha256 again record := by
    by_cases heq : again.manifestJson = record.manifestJson
    · exact .inl heq
    · exact .inr ⟨heq, hmanifest⟩
  generalize htagged : (tagPlan sha256 (selector.planned record) name record).record again now =
    tagged at hstore
  have hreference : tagged.reference = name := by
    rw [← htagged]
    rfl
  have hsource : tagged.digest = record.digest ∧ SameManifest sha256 tagged record := by
    rw [← htagged]
    exact ⟨hdigest, hsame⟩
  have hrow : w.store.imageDigests.get tagged.digest ≠ none := by
    rw [hsource.1]
    exact digest_of_select hreferenced hfound
  refine ⟨record, by rw [resolveTag, hselector]; exact hfound, hname, fun hid => ?_, tagged,
    hreference, ?_, hsource.1, hsource.2, fun other hother => ?_⟩
  · refine ⟨tagged.stored, ?_, hsource⟩
    rw [resolveTag, normalizeSelector_of_canonicalName hid hname, hstore, ← hreference]
    exact congrArg Except.ok resolveReference_put_self
  · rw [hstore, show (tagPlan sha256 (selector.planned record) name record).targetReference =
      tagged.reference from hreference.symm]
    exact OrdMap.get_insert_self ..
  · rw [resolveTag, resolveTag, hstore]
    cases hnormal : normalizeSelector other with
    | error e => exact .inl rfl
    | ok selected =>
      have hne : selected ≠ .named tagged.reference := fun heq =>
        hother (by rw [hnormal, heq, hreference]; rfl)
      rcases select_put hreferenced hrow hne with hsame | ⟨old, new, hold, hnew, hretag, hnone⟩
      · exact .inl hsame
      · exact .inr ⟨old, new, hold, hnew, hretag, fun canonical heq =>
          hnone canonical (Except.ok.inj heq)⟩

end Tagging

/-! A store with one image, and tags of it. -/

def appDigest : String := "sha256:" ++ String.ofList (List.replicate 64 'c')

def putApp : List Turn :=
  [.start (.putReference ⟨"registry.example/app:1", appDigest, "m", "{}", 7⟩), .step 0]

def appStore : ImageWorld :=
  (putApp.foldl (Clients.next Sha256.sha256) (.initial emptyStore)).world

def tagPermit (plan : ImageTagPlan) : SurfacePermit where
  proof := ⟨.imageTag, .image, stableResourceId Sha256.sha256 .image plan.targetReference, 1,
    none, some plan.planDigest⟩
  durability := .disabled
  operation := .zero 16
  decisionId := none
  template := Witness.plainRecord (.zero 16) (.zero 16) .requestReceived

def appPlan (name : String) : ImageTagPlan :=
  tagPlan Sha256.sha256 "registry.example/app:1" name
    ⟨"registry.example/app:1", appDigest, "m", "{}", 7⟩

def tagApp (name : String) : Except ImageTaggingError Unit × ImageWorld :=
  Process.run (executeImageTagAuthorized Sha256.sha256 (appPlan name) 8
    (tagPermit (appPlan name))).run appStore

theorem appPlan_prepared {target name : String} (hname : canonicalName target = .ok name) :
    prepareImageTag Sha256.sha256 appStore.store "registry.example/app:1" target =
      .ok (appPlan name) :=
  prepareImageTag_of_select
    (show normalizeSelector "registry.example/app:1" = .ok (.named "registry.example/app:1") by
      decide +kernel)
    (by decide +kernel) hname

set_option maxRecDepth 4000 in
theorem tag_then_resolve_app :
    ∃ found, resolveTag (tagApp "registry.example/app:2").2.store "registry.example/app:2" =
      .ok (some found) := by
  have hrun : (tagApp "registry.example/app:2").1 = .ok () := by decide +kernel
  obtain ⟨record, -, -, htagged, -⟩ := tag_then_resolve Sha256.sha256
    (.create (.new (.zero 16) .required) ∅) [] putApp "registry.example/app:1"
    "registry.example/app:2" (appPlan "registry.example/app:2") 8
    (tagPermit (appPlan "registry.example/app:2")) appStore (tagApp "registry.example/app:2").2
    rfl (appPlan_prepared (by decide +kernel)) (Prod.ext hrun rfl)
  obtain ⟨found, hfound, -⟩ := htagged (by decide +kernel)
  exact ⟨found, hfound⟩

def cafeName : String := "registry-1.docker.io/library/cafe:latest"

set_option maxRecDepth 4000 in
/-- A tag `cafe` is put and is no id of an image, so the text finds nothing; and the image that its
digest finds has another time. -/
theorem cafe_finds_nothing :
    prepareImageTag Sha256.sha256 appStore.store "registry.example/app:1" "cafe" =
        .ok (appPlan cafeName) ∧
      (tagApp cafeName).1 = .ok () ∧ resolveTag (tagApp cafeName).2.store "cafe" = .ok none ∧
      resolveTag appStore.store appDigest =
        .ok (some ⟨"registry.example/app:1", appDigest, "m", "{}", 7⟩) ∧
      resolveTag (tagApp cafeName).2.store appDigest =
        .ok (some ⟨cafeName, appDigest, "m", "{}", 8⟩) :=
  ⟨appPlan_prepared (by decide +kernel), by decide +kernel, by decide +kernel, by decide +kernel,
    by decide +kernel⟩

end Ferrocrate.Image
