import MadreKernel.Kernel.Records

/-!
# The files of a Work

Each Work has an input file and a result file in its directory, and each of them a temporary
file beside it.  The paths of two Works, and the four paths of one Work, are different; so what
a thread does to the files of one Work leaves the result files of the others alone.
-/

namespace Kernel

/-! ### Texts without a NUL octet -/

theorem nulFree_makeWorkId (draws : UInt64 × UInt64) :
  0 ∉ makeWorkId draws
  := by
  have hdigits : ∀ k < 16, (0 : UInt8) ≠ hexDigit k := by
    decide
  intro hmem
  obtain ⟨k, hk, hzero⟩ := exists_hexDigit_of_mem_makeWorkId hmem
  exact hdigits k hk hzero

theorem nulFree_workDir {dataDir id : Bytes} (hdir : 0 ∉ dataDir) (hid : 0 ∉ id) :
  0 ∉ workDir dataDir id
  := by
  have hname : 0 ∉ Bytes.ofString "work" := by decide +kernel
  rw [workDir, joinPath]
  split_ifs <;> simp [hdir, hid, hname]

theorem nulFree_inputPath {dataDir id : Bytes} (hdir : 0 ∉ dataDir) (hid : 0 ∉ id) :
  0 ∉ inputPath dataDir id
  := by
  have hname : 0 ∉ Bytes.ofString "/input.bin" := by decide +kernel
  simp [inputPath, nulFree_workDir hdir hid, hname]

theorem nulFree_resultPath {dataDir id : Bytes} (hdir : 0 ∉ dataDir) (hid : 0 ∉ id) :
  0 ∉ resultPath dataDir id
  := by
  have hname : 0 ∉ Bytes.ofString "/result.bin" := by decide +kernel
  simp [resultPath, nulFree_workDir hdir hid, hname]

/-! ### Different paths -/

/-- Texts whose last octets differ are different. -/
theorem append_ne_append {x y u v : Bytes} (n : Nat) (hu : n ≤ u.length) (hv : n ≤ v.length)
    (h : u.reverse.take n ≠ v.reverse.take n) :
  x ++ u ≠ y ++ v
  := by
  intro heq
  apply h
  have hlast := congrArg (fun l => l.reverse.take n) heq
  simp only [List.reverse_append] at hlast
  rw [List.take_append_of_le_length (by simpa using hu),
    List.take_append_of_le_length (by simpa using hv)] at hlast
  exact hlast

theorem workDir_injective {dataDir id id' : Bytes} (h : workDir dataDir id = workDir dataDir id') :
  id = id'
  := by
  rw [workDir, workDir] at h
  exact (List.cons.inj (List.append_cancel_left h)).2

theorem resultPath_ne_inputPath (dataDir id id' : Bytes) :
  resultPath dataDir id ≠ inputPath dataDir id'
  := append_ne_append 6 (by decide +kernel) (by decide +kernel) (by decide +kernel)

theorem temporary_injective {path path' : Bytes} (h : temporary path = temporary path') :
  path = path'
  := List.append_cancel_right h

theorem resultPath_ne_temporary (dataDir id path : Bytes) :
  resultPath dataDir id ≠ temporary path
  := append_ne_append 1 (by decide +kernel) (by decide +kernel) (by decide +kernel)

theorem inputPath_ne_temporary (dataDir id path : Bytes) :
  inputPath dataDir id ≠ temporary path
  := append_ne_append 1 (by decide +kernel) (by decide +kernel) (by decide +kernel)

/-- The result file of a Work. -/
def Config.resultFile (cfg : Config) (id : CString) : Bytes := resultPath cfg.dataDir id.toBytes

theorem Config.resultFile_injective (cfg : Config) {id id' : CString}
    (h : cfg.resultFile id = cfg.resultFile id') :
  id = id'
  := CString.toBytes_injective (workDir_injective (List.append_cancel_right h))

/-! ### Frames -/

namespace Files

theorem write_of_ne {files : Files} {path path' : Bytes} (h : path' ≠ path) (content : Bytes) :
  files.write path content path' = files path'
  := if_neg h

theorem remove_of_ne {files : Files} {path path' : Bytes} (h : path' ≠ path) :
  files.remove path path' = files path'
  := if_neg h

theorem rename_eq_some {files files' : Files} {source target : Bytes}
    (h : files.rename source target = some files') :
  files' target = files source ∧ ∀ path, path ≠ source → path ≠ target → files' path = files path
  := by
  obtain ⟨content, hcontent, rfl⟩ := Option.map_eq_some_iff.mp h
  refine ⟨?_, ?_⟩
  · rw [hcontent]
    exact if_pos rfl
  · intro path hsource htarget
    rw [write_of_ne htarget, remove_of_ne hsource]

end Files

/-- The result file of a Work and its temporary file are as they were. -/
def Config.KeepsResult (cfg : Config) (id : CString) (files files' : Files) : Prop :=
  files' (cfg.resultFile id) = files (cfg.resultFile id)
    ∧ files' (temporary (cfg.resultFile id)) = files (temporary (cfg.resultFile id))

variable {cfg : Config} {s : System}

theorem Config.KeepsResult.refl (id : CString) (files : Files) :
  cfg.KeepsResult id files files
  := ⟨rfl, rfl⟩

theorem Config.keepsResult_write {files : Files} {path : Bytes} {id : CString}
    (hresult : cfg.resultFile id ≠ path) (htemporary : temporary (cfg.resultFile id) ≠ path)
    (content : Bytes) :
  cfg.KeepsResult id files (files.write path content)
  := ⟨Files.write_of_ne hresult content, Files.write_of_ne htemporary content⟩

theorem Config.keepsResult_remove {files : Files} {path : Bytes} {id : CString}
    (hresult : cfg.resultFile id ≠ path) (htemporary : temporary (cfg.resultFile id) ≠ path) :
  cfg.KeepsResult id files (files.remove path)
  := ⟨Files.remove_of_ne hresult, Files.remove_of_ne htemporary⟩

theorem Config.keepsResult_rename {files files' : Files} {path : Bytes} {id : CString}
    (h : files.rename (temporary path) path = some files') (hpath : cfg.resultFile id ≠ path)
    (htemporary : temporary (cfg.resultFile id) ≠ path) :
  cfg.KeepsResult id files files'
  := by
  obtain ⟨-, hother⟩ := Files.rename_eq_some h
  refine ⟨hother _ (resultPath_ne_temporary _ _ _) hpath, hother _ ?_ htemporary⟩
  intro heq
  exact hpath (temporary_injective heq)

/-- The input files do not meet the result files. -/
theorem Config.resultFile_ne_input (cfg : Config) (id : CString) (other : Bytes) :
  cfg.resultFile id ≠ inputPath cfg.dataDir other
    ∧ temporary (cfg.resultFile id) ≠ inputPath cfg.dataDir other
    ∧ cfg.resultFile id ≠ temporary (inputPath cfg.dataDir other)
    ∧ temporary (cfg.resultFile id) ≠ temporary (inputPath cfg.dataDir other)
  := by
  refine ⟨resultPath_ne_inputPath _ _ _, (inputPath_ne_temporary _ _ _).symm,
    resultPath_ne_temporary _ _ _, ?_⟩
  intro heq
  exact resultPath_ne_inputPath _ _ _ (temporary_injective heq)

/-- The result files of two Works do not meet. -/
theorem Config.resultFile_ne_result (cfg : Config) {id other : CString} (h : id ≠ other) :
  cfg.resultFile id ≠ cfg.resultFile other
    ∧ temporary (cfg.resultFile id) ≠ cfg.resultFile other
    ∧ cfg.resultFile id ≠ temporary (cfg.resultFile other)
    ∧ temporary (cfg.resultFile id) ≠ temporary (cfg.resultFile other)
  := by
  have hne : cfg.resultFile id ≠ cfg.resultFile other := fun heq => h (cfg.resultFile_injective heq)
  exact ⟨hne, (resultPath_ne_temporary _ _ _).symm, resultPath_ne_temporary _ _ _,
    fun heq => hne (temporary_injective heq)⟩

/-! ### The paths of held records -/

/-- The paths of a record that the store holds are those of its Work. -/
theorem reachable_paths
    (h : (machine cfg).Reachable s) {work : WorkRecord} (hholds : s.store.Holds work) :
  work.resultPath = cfg.resultFile (bindText work.id)
    ∧ work.inputPath = inputPath cfg.dataDir (bindText work.id).toBytes
  := by
  obtain ⟨w, hrow, hconstants⟩ := hholds
  obtain ⟨request, hsubmitted⟩ := (reachable_filed h).origin _ w hrow
  obtain ⟨work₀, w₀, hsubmits, hid, hrow₀, hconstants₀⟩ :=
    (reachable_filed h).filed _ request hsubmitted
  obtain rfl : w = w₀ := Option.some.inj (hrow.symm.trans hrow₀)
  have hsame := hconstants.symm.trans hconstants₀
  obtain ⟨draws, hdraws⟩ := hsubmits.id
  have hnul : 0 ∉ work₀.id := by
    rw [hdraws]
    exact nulFree_makeWorkId draws
  have hresult : work.resultPath = (bindText work₀.resultPath).toBytes :=
    congrArg Work.resultPath hsame
  have hinput : work.inputPath = (bindText work₀.inputPath).toBytes :=
    congrArg Work.inputPath hsame
  have hbytes : (bindText work.id).toBytes = work₀.id := by
    rw [hid]
    exact CString.toBytes_ofBytes hnul
  rw [Config.resultFile, hbytes, hresult, hinput, hsubmits.resultPath, hsubmits.inputPath]
  exact ⟨CString.toBytes_ofBytes (nulFree_resultPath cfg.dataDir_nulFree hnul),
    CString.toBytes_ofBytes (nulFree_inputPath cfg.dataDir_nulFree hnul)⟩

end Kernel
