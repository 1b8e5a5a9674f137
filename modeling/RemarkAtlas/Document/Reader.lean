import RemarkAtlas.Document.Records

/-!
Reading a whole document: an array of the metadata, the pass list and the record list.  Records may
name any pass of the list, at whatever depth it stands.
-/

namespace RemarkAtlas.Document

def readGenerator (value : Json) : Reading Generator := do
  let members ← object .generator value
  let name ← scalar .generator "name" members
  let packageVersion ← scalar .generator "pkgversion" members
  let version ← scalar .generator "version" members
  let target ← scalar .generator "target" members
  return { name, packageVersion, version, target }

def readUnit (options : Options) : Json → Reading CompilationUnit
  | .array [metadata, passList, recordList] => do
    let members ← object .metadata metadata
    let format ← scalar .metadata "format" members
    let generator ← readGenerator (← required .metadata "generator" members)
    let (rootPasses, table) ← readPasses .empty (← array .passList passList)
    let records ← readRecords options table.positions (← array .recordList recordList)
    return {
      filename := none, format, generator, passes := table.passes, rootPasses,
      positions := table.positions, records }
  | _ => refuse .notThreeParts

end RemarkAtlas.Document
