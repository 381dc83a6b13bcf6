/-
Transfers that fail.

A transfer has three calls that change something, the rename, the copy and the removal, and it goes
on to the copy after every refusal of a rename.  A copy empties its target before the first byte is
written, so a failure behind that point would leave the target emptied; and a failed removal would
leave two files where there was one.  Neither happens.  Once a target is open, writing to it can
only fail at a device, which keeps nothing (`copy_error`).  And a copy leaves every entry where it
was, so the path of the source still names the entry that it named before, which can be removed
because it is no directory (`removeFile_of_names`).

So a transfer that fails has failed before its first change (`transfer_error`).
-/
import LineShell.Proofs.Files.Transfer

set_option autoImplicit false

namespace LineShell

/-- Only a device refuses bytes, and a device changes nothing. -/
theorem Handle.write_error {h : Handle} {bytes : Bytes} {fs : FileSystem} {e : IoError}
    (herror : (h.write bytes fs).1 = .error e) :
    (∃ d, h = .device d) ∧ (h.write bytes fs).2.2 = fs := by
  unfold write at herror ⊢
  split at herror
  · exact nomatch herror
  · rename_i hne
    rw [if_neg hne]
    rcases h with id | ⟨id, offset⟩ | d
    · exact nomatch herror
    · exact nomatch herror
    · refine ⟨⟨d, rfl⟩, ?_⟩
      rcases d with _ | _ | portions <;> rfl

namespace FileSystem

variable {fs after : FileSystem} {p source target : Path} {l : Location} {id : FileId}
  {e : IoError}

/-- A copy that fails has neither created its target nor emptied it. -/
theorem copy_error (h : fs.copy source target = (.error e, after)) : after = fs := by
  unfold copy at h
  split at h
  · split at h
    · exact (Prod.mk.inj h).2.symm
    · rename_i _ l id hread _ handle opened htarget
      simp only [Prod.mk.injEq] at h
      obtain ⟨hwrite, hafter⟩ := h
      obtain ⟨⟨d, rfl⟩, hkept⟩ := Handle.write_error hwrite
      rw [← hafter, hkept]
      -- the target is a device, and opening a device changes nothing
      rcases openTarget_cases htarget with
        ⟨other, mid, -, ⟨-, hhandle, -⟩ | ⟨-, hhandle, -⟩⟩ | hdevice
      · exact nomatch hhandle
      · exact nomatch hhandle
      · obtain ⟨d', hopen, -⟩ := hdevice
        obtain ⟨dir, n, -, -, -, hopens⟩ := openForWriting_cases hopen
        rcases hopens with ⟨-, hopened, -⟩ | ⟨other, -, hopened, -⟩ | ⟨d'', -, -, hsame⟩
        · exact nomatch hopened
        · exact nomatch hopened
        · exact hsame
  · exact (Prod.mk.inj h).2.symm
  · exact (Prod.mk.inj h).2.symm

/-- An entry that is no directory is removed by every path that names it. -/
theorem removeFile_of_names {node : Node} (hnames : fs.Names p l) (hnode : fs.node? l = some node)
    (hplain : node ≠ .directory) (hshort : ∀ n ∈ l.head?, n.length ≤ maxName) :
    fs.removeFile p = .ok (fs.erase l) := by
  obtain ⟨dir, n, rfl, hlocate⟩ := hnames
  have hn : ¬ maxName < n.length := Nat.not_lt.mpr (hshort n rfl)
  rw [removeFile, hlocate]
  simp only [bind, Except.bind, if_neg hn, hnode]
  cases node with
  | directory => exact absurd rfl hplain
  | file id => rfl
  | link t => rfl
  | device d => rfl

/-- What leads to a regular file can be removed behind a copy of it. -/
theorem removeFile_of_copy {copied : FileSystem} (hsound : fs.Sound)
    (hsource : fs.resolve source = .ok (l, .file id))
    (hcopy : fs.copy source target = (.ok (), copied)) :
    ∃ removed, copied.removeFile source = .ok removed := by
  obtain ⟨hfile, S, hS, hentry⟩ := names_of_resolve hsource
  obtain ⟨opened, mid, hopen, rfl⟩ := copy_filled hsound hsource hcopy
  obtain ⟨T, k, -, -, -, -, hopens, hk⟩ := names_of_open hsound hopen
  have hextends := hopens.extends_filled hk id
  obtain ⟨node, hnode, hplain⟩ : ∃ node, fs.node? S = some node ∧ node ≠ .directory := by
    rcases hentry with rfl | ⟨t, hlink⟩
    · exact ⟨_, hfile, nofun⟩
    · exact ⟨_, hlink, nofun⟩
  have hstands : fs.node? S ≠ none := by
    rw [hnode]
    exact Option.some_ne_none _
  obtain ⟨dir, n, rfl, hlocate⟩ := hS
  refine ⟨_, @removeFile_of_names (mid.filled opened id) _ _ node
    ⟨dir, n, rfl, locate_of_extends hextends hlocate⟩ ?_ hplain ?_⟩
  · rw [hextends.node_eq _ hstands, hnode]
  · intro m hm
    rw [← Option.some.inj hm]
    exact hsound.short n dir hstands

/-- **A transfer that fails leaves everything in place**, whatever it failed for. -/
theorem transfer_error (hsound : fs.Sound) (h : fs.transfer source target = (.error e, after)) :
    after = fs := by
  unfold transfer at h
  split at h
  · exact nomatch h
  · split at h
    · rename_i hstatus
      split at h
      · rename_i copied hcopy
        -- the copy has gone through, so the removal goes through as well
        exfalso
        obtain ⟨⟨l, node⟩, hsource, hkind⟩ := exists_of_bind_eq_ok hstatus
        obtain ⟨id, rfl⟩ : ∃ id, node = .file id := by
          cases node with
          | file id => exact ⟨id, rfl⟩
          | _ => exact nomatch hkind
        obtain ⟨removed, hremoved⟩ := removeFile_of_copy hsound hsource hcopy
        rw [hremoved] at h
        exact nomatch h
      · rename_i e' copied hcopy
        rw [← (Prod.mk.inj h).2, copy_error hcopy]
    · exact (Prod.mk.inj h).2.symm

end FileSystem

end LineShell
