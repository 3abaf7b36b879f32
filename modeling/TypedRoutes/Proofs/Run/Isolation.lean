import TypedRoutes.Proofs.Run.Frame

/-!
# Snapshots that cannot be loaded

Without a snapshot that cannot be loaded a run makes the same results of the others, as long as the
walk overlooks the snapshot: it is not the output directory, and nothing that is found stands below
it. What is written is the same as well, unless an output would have to stand below the snapshot.
With what writes do this says that a run touches nothing but its outputs, whatever happens on the
way.
-/

namespace TypedRoutes

/-- Names stay names when something is removed. -/
theorem Volume.IsNamed.remove {volume : Volume} (h : volume.IsNamed) (place : Place) :
    (volume.remove place).IsNamed :=
  fun entry hentry => h entry (List.mem_filter.mp hentry).1

namespace ScanRequest

variable [Walker] {request : ScanRequest} {volume : Volume} {root file other : Place}
  {content : ByteText}

/-- A snapshot that is found keeps no other file from being found, if the walk overlooks it. -/
theorem finds_remove_iff {text : ByteText} (hroot : volume.placeAt? request.root = some root)
    (hoverlooks : Walker.Overlooks volume (root ++ file)) (hne : file ≠ [])
    (hfile : request.Finds volume root file content) :
    request.Finds (volume.remove (root ++ file)) root other text ↔
      request.Finds volume root other text ∧ other ≠ file := by
  have hnode := hfile.stands
  have hexcluded (path : DiskPath) (hpath : request.excluded? = some path) :
      (volume.remove (root ++ file)).placeAt? path = volume.placeAt? path := by
    refine Volume.placeAt?_remove hnode fun hplace => ?_
    -- a scan that leaves the file out is not to find it
    exact hfile.outside path _ hpath hplace (List.prefix_refl _)
  have houtside : (∀ path directory, request.excluded? = some path →
        (volume.remove (root ++ file)).placeAt? path = some directory →
          ¬ directory <+: root ++ other) ↔
      ∀ path directory, request.excluded? = some path →
        volume.placeAt? path = some directory → ¬ directory <+: root ++ other := by
    refine forall_congr' fun path => forall_congr' fun directory => forall_congr' fun hpath => ?_
    rw [hexcluded path hpath]
  have hrootNe : root ≠ root ++ file := fun heq => hne (by simpa using heq)
  have hyielded (hother : volume.node? (root ++ other) = some (.file text))
      (hapart : other ≠ file) :
      .ok other ∈ request.walkOn (volume.remove (root ++ file)) ↔
        .ok other ∈ request.walkOn volume :=
    (hoverlooks _ request.repositories root hroot hrootNe).2 other text hother
      fun heq => hapart (List.append_cancel_left heq)
  constructor
  · intro h
    have hstands := h.stands
    rw [Volume.node?_remove hnode] at hstands
    split at hstands
    · cases hstands
    · rename_i hapart
      have hother : other ≠ file := fun heq => hapart (by rw [heq])
      exact ⟨⟨(hyielded hstands hother).mp h.yielded,
        (Volume.locate_remove_iff hnode).mp h.leads, hstands, h.named, houtside.mp h.outside,
        h.matched⟩, hother⟩
  · rintro ⟨h, hother⟩
    have hapart : root ++ other ≠ root ++ file := fun heq => hother (List.append_cancel_left heq)
    exact ⟨(hyielded h.stands hother).mpr h.yielded, (Volume.locate_remove_iff hnode).mpr h.leads,
      by rw [Volume.node?_remove hnode, if_neg hapart, h.stands], h.named,
      houtside.mpr h.outside, h.matched⟩

/-- Without a snapshot all the other files are found. -/
theorem foundOn_remove (hnamed : volume.IsNamed) (hroot : volume.placeAt? request.root = some root)
    (hoverlooks : Walker.Overlooks volume (root ++ file)) (hne : file ≠ [])
    (hfile : request.Finds volume root file content) :
    (volume.remove (root ++ file)).placeAt? request.root = some root ∧
      request.foundOn (volume.remove (root ++ file)) =
        (request.foundOn volume).filter fun other => other != file := by
  have hroot' : (volume.remove (root ++ file)).placeAt? request.root = some root := by
    rw [Volume.placeAt?_remove hfile.stands, hroot]
    rw [hroot, ne_eq, Option.some.injEq]
    exact fun heq => hne (by simpa using heq)
  refine ⟨hroot', eq_of_same_members (request.pairwise_foundOn _)
    ((request.pairwise_foundOn volume).filter _) (request.nodup_foundOn _)
    (List.Pairwise.filter _ (request.nodup_foundOn volume)) fun other => ?_⟩
  rw [List.mem_filter, bne_iff_ne, mem_foundOn_iff (hnamed.remove _) hroot',
    mem_foundOn_iff hnamed hroot]
  simp only [finds_remove_iff hroot hoverlooks hne hfile, exists_and_right]

omit [Walker] in
/-- A root that was the snapshot itself is gone without it. -/
theorem placeAt?_remove_root (hroot : volume.placeAt? request.root = some root)
    (hnode : volume.node? root = some (.file content)) :
    (volume.remove root).placeAt? request.root = none := by
  rw [Option.eq_none_iff_forall_ne_some]
  intro other hother
  obtain ⟨hlocated, hsome⟩ := Volume.placeAt?_eq_some_iff.mp hother
  rw [Volume.locate_remove_iff hnode, (Volume.placeAt?_eq_some_iff.mp hroot).1] at hlocated
  rw [← Except.ok.inj hlocated, Volume.node?_remove hnode, if_pos rfl] at hsome
  cases hsome

end ScanRequest

namespace Settings

variable [Walker] [Globs] {settings : Settings} {workingDirectory : String} {volume : Volume}
  {files : List SnapshotFile}

theorem resultsOn_eq (h : settings.scannedOn volume = .ok files) :
    settings.resultsOn workingDirectory volume =
      files.filterMap (settings.resultOf? workingDirectory) := by
  rw [resultsOn, h]

/-- Without its root a scan makes no results. -/
theorem resultsOn_rootless {request : ScanRequest}
    (hrequest : settings.scanRequest false = .ok request)
    (hroot : volume.placeAt? request.root = none) :
    settings.resultsOn workingDirectory volume = [] := by
  have hunscanned : settings.scannedOn volume = .error (.rootMissing request.root) := by
    have hmissing : (volume.nodeAt? request.root).isSome = false := by
      rw [← Bool.not_eq_true, ScanRequest.nodeAt?_isSome_iff, hroot]
      simp
    rw [scannedOn, hrequest]
    change request.filesOn volume = _
    rw [ScanRequest.filesOn, ScanRequest.scanOn, hmissing]
    rfl
  rw [resultsOn, hunscanned]

/-- Without a snapshot that cannot be loaded the results are the same. -/
theorem resultsOn_remove (hnamed : volume.IsNamed)
    (hscanned : settings.scannedOn volume = .ok files)
    {file : SnapshotFile} (hmem : file ∈ files)
    (hunloadable : settings.resultOf? workingDirectory file = none) {place : Place}
    (hlocate : volume.locate file.path = .ok place) (hoverlooks : Walker.Overlooks volume place) :
    settings.resultsOn workingDirectory (volume.remove place) =
      settings.resultsOn workingDirectory volume := by
  obtain ⟨request, root, hrequest, hroot, hwalks, hfiles⟩ := (scannedOn_eq_ok hnamed).mp hscanned
  obtain ⟨found, hfound, hsnapshot⟩ := found_of_snapshot hfiles hmem
  obtain ⟨content, hfinds⟩ := (ScanRequest.mem_foundOn_iff hnamed hroot).mp hfound
  obtain rfl : place = root ++ found := by
    obtain ⟨_, -, rfl⟩ := hfinds.snapshotOn_eq_ok_iff.mp hsnapshot
    exact Except.ok.inj (hlocate.symm.trans hfinds.leads)
  have hnone : (request.snapshotOn volume found).toOption.bind
      (settings.resultOf? workingDirectory) = none := by
    rw [hsnapshot]
    exact hunloadable
  rw [resultsOn_eq hscanned, ScanRequest.filterMap_snapshots _ hfiles]
  by_cases hne : found = []
  · -- the root itself is the snapshot, so nothing else was found, and without it nothing is
    have hstands := hfinds.stands
    rw [hne, List.append_nil] at hstands ⊢
    rw [resultsOn_rootless hrequest (ScanRequest.placeAt?_remove_root hroot hstands), eq_comm,
      List.filterMap_eq_nil_iff]
    intro other hother
    rw [ScanRequest.eq_nil_of_found hnamed hroot (hne ▸ hfound) hother, ← hne]
    exact hnone
  · obtain ⟨hroot', hfoundOn⟩ :=
      ScanRequest.foundOn_remove hnamed hroot hoverlooks hne hfinds
    have hread : ∀ other ∈ (request.foundOn volume).filter (fun other => other != found),
        ∃ snapshot, request.snapshotOn volume other = .ok snapshot ∧
          request.snapshotOn (volume.remove (root ++ found)) other = .ok snapshot := by
      intro other hother
      obtain ⟨hmemFound, hother⟩ := List.mem_filter.mp hother
      obtain ⟨snapshot, -, hread⟩ := List.mem_map.mp (hfiles ▸ List.mem_map_of_mem hmemFound)
      refine ⟨snapshot, hread.symm, ScanRequest.snapshotOn_kept hroot
        (ScanRequest.names_of_found hnamed hmemFound) rfl
        (fun _ => (Volume.directory_remove_iff hfinds.stands).mpr)
        (Volume.sameFile_remove hfinds.stands ?_) hread.symm⟩
      rw [bne_iff_ne] at hother
      exact fun heq => hother (List.append_cancel_left heq)
    obtain ⟨files', hfiles'⟩ :=
      ScanRequest.exists_snapshots fun other hother => (hread other hother).imp fun _ h => h.2
    have hwalks' : request.WalksOn (volume.remove (root ++ found)) :=
      (hoverlooks _ _ root hroot fun heq => hne (by simpa using heq)).1 hwalks
    have hscanned' : settings.scannedOn (volume.remove (root ++ found)) = .ok files' :=
      (scannedOn_eq_ok (hnamed.remove _)).mpr
        ⟨request, root, hrequest, hroot', hwalks', hfoundOn ▸ hfiles'⟩
    rw [resultsOn_eq hscanned', ScanRequest.filterMap_snapshots _ hfiles',
      List.filterMap_filter]
    refine List.filterMap_congr fun other hother => ?_
    by_cases heq : other = found
    · rw [heq, hnone]
      simp
    · obtain ⟨snapshot, hvolume, hremoved⟩ := hread other
        (List.mem_filter.mpr ⟨hother, by simpa using heq⟩)
      rw [if_pos (by simpa using heq), hvolume, hremoved]

/-- A snapshot that cannot be loaded and does not stand in the way of an output changes nothing
about what is written: without it, all other places end up the same. -/
theorem transformOn_remove (hnamed : volume.IsNamed) (houtput : settings.output.chars ≠ [])
    (hup : settings.output.NeverUp) (hscanned : settings.scannedOn volume = .ok files)
    {file : SnapshotFile} (hmem : file ∈ files)
    (hunloadable : settings.resultOf? workingDirectory file = none) {place : Place}
    (hlocate : volume.locate file.path = .ok place) (hoverlooks : Walker.Overlooks volume place)
    (hclear : ∀ result ∈ settings.resultsOn workingDirectory volume,
      ¬ place <+: volume.target (settings.outputOf result))
    {other : Place} (hother : ¬ place <+: other) :
    (settings.transformOn workingDirectory false (volume.remove place)).2.node? other =
      (settings.transformOn workingDirectory false volume).2.node? other := by
  obtain ⟨request, root, -, hroot, -, hfiles⟩ := (scannedOn_eq_ok hnamed).mp hscanned
  obtain ⟨found, -, hsnapshot⟩ := found_of_snapshot hfiles hmem
  obtain ⟨content, hread, rfl⟩ := ScanRequest.snapshotOn_eq_ok.mp hsnapshot
  obtain ⟨located, hlocated, hnode⟩ := Volume.read_eq_ok_iff.mp hread
  obtain rfl : place = located := Except.ok.inj (hlocate.symm.trans hlocated)
  have hseen : ∀ {above below : Place}, above <+: below → ¬ place <+: below → ¬ place <+: above :=
    fun habove hbelow h => hbelow (h.trans habove)
  have hagree : volume.Agree (fun other => ¬ place <+: other) (volume.remove place) := by
    refine ⟨rfl, fun {other} hother => ?_⟩
    rw [Volume.node?_remove hnode, if_neg]
    rintro rfl
    exact hother (List.prefix_refl other)
  have hresults := resultsOn_remove hnamed hscanned hmem hunloadable hlocate hoverlooks
  obtain ⟨told, htransform⟩ := settings.transformOn_scanned workingDirectory (.ok files)
  obtain ⟨told', htransform'⟩ := settings.transformOn_scanned workingDirectory
    (settings.scannedOn (volume.remove place))
  rw [htransform false volume hscanned, htransform' false _ rfl]
  rw [resultsOn_eq hscanned] at hresults hclear
  cases hscanned' : settings.scannedOn (volume.remove place) with
  | error problem =>
    -- nothing was found without the snapshot, so nothing was written with it
    rw [resultsOn, hscanned'] at hresults
    simp only at hresults ⊢
    rw [← hresults]
    exact hagree.node hother
  | ok files' =>
    rw [resultsOn_eq hscanned'] at hresults
    simp only [hresults]
    refine (writeAll_agree hseen hagree (fun result hresult => ?_) hclear told told').node hother
    obtain ⟨_, _, _, hinto⟩ := leadsInto_of_result hfiles hnamed houtput hup hresult
    exact hinto.neverUp

/-- A run touches nothing but its outputs, however it ends. A dry run changes nothing. A snapshot
that cannot be loaded changes nothing about the results, nor about what is written if no output
would have to stand below it. -/
theorem transform_effect (settings : Settings) (workingDirectory : String) (volume : Volume)
    (hnamed : volume.IsNamed) (houtput : settings.output.chars ≠ [])
    (hup : PathStep.up ∉ settings.output.steps) :
    (settings.transformOn workingDirectory true volume).2 = volume ∧
    (∀ problem, settings.scannedOn volume = .error problem →
      (settings.transformOn workingDirectory false volume).1.1 = .error (.scan problem) ∧
        (settings.transformOn workingDirectory false volume).2 = volume) ∧
    ∀ files, settings.scannedOn volume = .ok files →
      (∃ written rest, settings.Effect workingDirectory volume files written rest
        (settings.transformOn workingDirectory false volume).1.1
        (settings.transformOn workingDirectory false volume).2) ∧
      ∀ file ∈ files, settings.resultOf? workingDirectory file = none →
        ∀ place, volume.locate file.path = .ok place → Walker.Overlooks volume place →
          settings.resultsOn workingDirectory (volume.remove place) =
            settings.resultsOn workingDirectory volume ∧
          ((∀ result ∈ settings.resultsOn workingDirectory volume,
              ¬ place <+: volume.target (settings.outputOf result)) →
            ∀ other, ¬ place <+: other →
              (settings.transformOn workingDirectory false (volume.remove place)).2.node? other =
                (settings.transformOn workingDirectory false volume).2.node? other) := by
  have hneverUp := DiskPath.neverUp_of_steps hup
  obtain ⟨told, htransform⟩ :=
    settings.transformOn_scanned workingDirectory (settings.scannedOn volume)
  refine ⟨?_, fun problem hscanned => ?_, fun files hscanned => ⟨?_, ?_⟩⟩
  · rw [htransform true volume rfl]
    cases settings.scannedOn volume with
    | error problem => rfl
    | ok files =>
      obtain ⟨_, hdry⟩ := settings.writeAll_on_dry
        (files.filterMap (settings.resultOf? workingDirectory)) told volume
      simp only [hdry]
  · rw [htransform false volume rfl, hscanned]
    exact ⟨rfl, rfl⟩
  · rw [htransform false volume rfl, hscanned]
    exact writeAll_effect hnamed houtput hneverUp hscanned told
  · intro file hmem hunloadable place hlocate hoverlooks
    exact ⟨resultsOn_remove hnamed hscanned hmem hunloadable hlocate hoverlooks,
      fun hclear other hother => transformOn_remove hnamed houtput hneverUp hscanned hmem
        hunloadable hlocate hoverlooks hclear hother⟩

end Settings

namespace Settings

open scoped IgnoreTable Pattern

/-- A snapshot of a file without routes. -/
def plainText : String := "\x7b\"source\":\x7b\"file_name\":\"A\"\x7d\x7d"

/-- A volume with two snapshots, one of which cannot be loaded. -/
def mixedVolume : Volume :=
  ((Volume.bare.addDirectory ["in"]).putFile ["in", "A.nestia.json"] plainText).putFile
    ["in", "B.nestia.json"] ""

/-- The snapshots of that volume. -/
def mixedFiles : List SnapshotFile :=
  [⟨.ofString "in/A.nestia.json", .ofString "A.nestia.json", plainText⟩,
    ⟨.ofString "in/B.nestia.json", .ofString "B.nestia.json", ""⟩]

/-- The results go to a directory inside the one that is scanned. -/
def nestedSettings : Settings where
  input := .ofString "in"
  output := .ofString "in/out"

/-- What a run scans is known from what it finds. -/
theorem scannedOn_of_found {settings : Settings} {volume : Volume} {files : List SnapshotFile}
    {places : List Place} {root : Place} (hfilter : settings.filter? = none)
    (hnamed : volume.IsNamed)
    (hroot : volume.placeAt? settings.input = some root)
    (hfound : ScanRequest.foundOn ⟨settings.input, true, none, some settings.output⟩
      volume = places)
    (hfiles : places.map (ScanRequest.snapshotOn
      ⟨settings.input, true, none, some settings.output⟩ volume) = files.map .ok) :
    settings.scannedOn volume = .ok files := by
  refine (scannedOn_eq_ok hnamed).mpr ⟨⟨settings.input, true, none, some settings.output⟩, _, ?_,
    hroot, IgnoreTable.error_not_mem_walk, hfound ▸ hfiles⟩
  rw [scanRequest, hfilter]
  rfl

theorem scannedOn_mixedVolume : nestedSettings.scannedOn mixedVolume = .ok mixedFiles := by
  have hroot : mixedVolume.placeAt? nestedSettings.input = some ["in"] := by decide +kernel
  have hfound : ScanRequest.foundOn ⟨nestedSettings.input, true, none, some nestedSettings.output⟩
      mixedVolume = [["A.nestia.json"], ["B.nestia.json"]] :=
    IgnoreTable.foundOn_eq hroot (by decide +kernel) (by decide +kernel) (by decide +kernel)
      (by decide +kernel)
  exact scannedOn_of_found rfl (by decide +kernel) hroot hfound (by decide +kernel)

theorem transform_effect_mixedVolume :
    mixedVolume.IsNamed ∧ nestedSettings.output.chars ≠ [] ∧
      PathStep.up ∉ nestedSettings.output.steps ∧
      (∃ written rest, nestedSettings.Effect "/" mixedVolume mixedFiles written rest
        (nestedSettings.transformOn "/" false mixedVolume).1.1
        (nestedSettings.transformOn "/" false mixedVolume).2) ∧
      nestedSettings.resultsOn "/" (mixedVolume.remove ["in", "B.nestia.json"]) =
        nestedSettings.resultsOn "/" mixedVolume ∧
      (nestedSettings.transformOn "/" false
          (mixedVolume.remove ["in", "B.nestia.json"])).2.node? ["in", "out", "A.nestia.json"] =
        (nestedSettings.transformOn "/" false mixedVolume).2.node?
          ["in", "out", "A.nestia.json"] := by
  have hnamed : mixedVolume.IsNamed := by decide +kernel
  have houtput : nestedSettings.output.chars ≠ [] := by decide
  have hup : PathStep.up ∉ nestedSettings.output.steps := by decide
  obtain ⟨heffect, hunloadable⟩ := (transform_effect nestedSettings "/" mixedVolume hnamed houtput
    hup).2.2 mixedFiles scannedOn_mixedVolume
  have hoverlooks : Walker.Overlooks mixedVolume ["in", "B.nestia.json"] :=
    IgnoreTable.overlooks hnamed
      (show mixedVolume.node? ["in", "B.nestia.json"] = some (.file "") by decide +kernel)
      ⟨"B.nestia.json", by decide, by decide⟩
  have hmem : ⟨.ofString "in/B.nestia.json", .ofString "B.nestia.json", ""⟩ ∈ mixedFiles :=
    List.mem_cons_of_mem _ List.mem_cons_self
  obtain ⟨hresults, hwritten⟩ := hunloadable _ hmem
    (Option.isNone_iff_eq_none.mp (by decide +kernel)) _ (by decide +kernel) hoverlooks
  refine ⟨hnamed, houtput, hup, heffect, hresults, hwritten ?_ _ (by decide)⟩
  rw [resultsOn_eq scannedOn_mixedVolume]
  decide +kernel

/-- A volume with two snapshots, the first of which cannot be loaded. -/
def blockedVolume : Volume :=
  ((Volume.bare.addDirectory ["in"]).putFile ["in", "A.nestia.json"] "").putFile
    ["in", "B.nestia.json"] plainText

/-- The snapshots of that volume. -/
def blockedFiles : List SnapshotFile :=
  [⟨.ofString "in/A.nestia.json", .ofString "A.nestia.json", ""⟩,
    ⟨.ofString "in/B.nestia.json", .ofString "B.nestia.json", plainText⟩]

/-- The results would have to stand below the snapshot that cannot be loaded. -/
def blockedSettings : Settings where
  input := .ofString "in"
  output := .ofString "in/A.nestia.json/out"

theorem scannedOn_blockedVolume : blockedSettings.scannedOn blockedVolume = .ok blockedFiles := by
  have hroot : blockedVolume.placeAt? blockedSettings.input = some ["in"] := by decide +kernel
  have hfound : ScanRequest.foundOn
      ⟨blockedSettings.input, true, none, some blockedSettings.output⟩ blockedVolume =
        [["A.nestia.json"], ["B.nestia.json"]] :=
    IgnoreTable.foundOn_eq hroot (by decide +kernel) (by decide +kernel) (by decide +kernel)
      (by decide +kernel)
  exact scannedOn_of_found rfl (by decide +kernel) hroot hfound (by decide +kernel)

/-- Without the snapshot that cannot be loaded only the other one is scanned. -/
theorem scannedOn_unblocked :
    blockedSettings.scannedOn (blockedVolume.remove ["in", "A.nestia.json"]) =
      .ok [⟨.ofString "in/B.nestia.json", .ofString "B.nestia.json", plainText⟩] := by
  have hroot : (blockedVolume.remove ["in", "A.nestia.json"]).placeAt? blockedSettings.input =
      some ["in"] := by decide +kernel
  have hfound : ScanRequest.foundOn
      ⟨blockedSettings.input, true, none, some blockedSettings.output⟩
        (blockedVolume.remove ["in", "A.nestia.json"]) = [["B.nestia.json"]] :=
    IgnoreTable.foundOn_eq hroot (by decide +kernel) (by decide +kernel) (by decide +kernel)
      (by decide +kernel)
  exact scannedOn_of_found rfl (by decide +kernel) hroot hfound (by decide +kernel)

/-- A snapshot that cannot be loaded keeps the result of another one from being written where the
directory of the results would stand below it. -/
theorem transform_effect_blockedVolume :
    blockedVolume.IsNamed ∧ blockedSettings.output.chars ≠ [] ∧
      PathStep.up ∉ blockedSettings.output.steps ∧
      blockedSettings.scannedOn blockedVolume = .ok blockedFiles ∧
      blockedSettings.resultOf? "/"
        ⟨.ofString "in/A.nestia.json", .ofString "A.nestia.json", ""⟩ = none ∧
      (blockedSettings.transformOn "/" false blockedVolume).1.1 = .error
        (.write (.directory (.ofString "in/A.nestia.json/out") .notADirectory)) ∧
      (blockedSettings.transformOn "/" false blockedVolume).2.node?
        ["in", "A.nestia.json", "out", "B.nestia.json"] = none ∧
      ((blockedSettings.transformOn "/" false
        (blockedVolume.remove ["in", "A.nestia.json"])).2.node?
          ["in", "A.nestia.json", "out", "B.nestia.json"]).isSome = true := by
  refine ⟨by decide +kernel, by decide, by decide, scannedOn_blockedVolume,
    Option.isNone_iff_eq_none.mp (by decide +kernel), ?_, ?_, ?_⟩
  · rw [transformOn_eq scannedOn_blockedVolume]
    decide +kernel
  · rw [transformOn_eq scannedOn_blockedVolume]
    decide +kernel
  · rw [transformOn_eq scannedOn_unblocked]
    decide +kernel

end Settings

end TypedRoutes
