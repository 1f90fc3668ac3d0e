import PlanArchive.Archive.Basic

/-!
# The start-up report

What an archive was set up with and what was odd about it, as JSON.
-/

namespace PlanArchive

open Text Naming Coding

def Schema.Warning.toJson : Schema.Warning → Json
  | .version expected found =>
    .tagged "VersionMismatch" [("expected", .str expected), ("found", .str found)]
  | .checksum expected found =>
    .tagged "ChecksumMismatch" [("expected", .str expected), ("found", .str found)]

def Naming.Collision.toJson : Collision → Json
  | .tagTaken tag typeId previous =>
    .tagged "DuplicateType"
      [("alias", .str tag), ("type_id", .str typeId), ("previous", .str previous)]
  | .typeRenamed typeId tag previous =>
    .tagged "DuplicateAlias"
      [("type_id", .str typeId), ("alias", .str tag), ("previous", .str previous)]

def Archive.report (archive : Archive) : Json :=
  .obj
    [("format_version", .str formatVersion),
      ("schema", .obj
        [("declared", .str archive.schema.declared), ("checksum", .str archive.schema.checksum)]),
      ("file_encoding", .str (archive.encodingOr archive.settings.defaultEncoding)),
      ("alias_count", .nat archive.resolver.tags.size),
      ("converters", .array (archive.roster.names.map .str)),
      ("integrity_warnings", .array (archive.warnings.map Schema.Warning.toJson)),
      ("alias_collisions", .array (archive.resolver.tags.collisions.map Collision.toJson)),
      ("converter_errors", .array (archive.coderFailures.map fun f => .str f.message)),
      ("unregistered_types", .array (archive.unreadable.map .str))]

end PlanArchive
