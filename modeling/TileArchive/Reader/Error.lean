import TileArchive.Cache.Config
import TileArchive.Directory.Entry
import TileArchive.Gzip.Member
import TileArchive.Header
import TileArchive.Metadata.Document
import TileArchive.Source.Error
import TileArchive.TileCoord

/-!
# `TileArchive.Reader.Error`: what can go wrong with an archive

A `ReadError` says which part of the work failed and why. A tile that the archive does not
have is no error.

There is one case for each part, and it carries the error of this part as it was found. The text
of an error is led by the name of the part. Texts of errors that come from outside of the program,
such as those of a file system or of a network, are taken as they are.
-/

set_option autoImplicit false

namespace TileArchive

/-- Why a configuration is refused. The first flaw is one of a reader's configuration, and
the other two are those of one for a web server. -/
inductive ConfigFlaw where
  /-- One read cannot be as long as the threshold for joining reads. -/
  | thresholdTooLarge (threshold : UInt64)
  /-- No read would ever be tried. -/
  | noAttempts
  /-- Every request would time out at once. -/
  | noTimeout
deriving DecidableEq, Repr

/-- What is wrong with a configuration. -/
def ConfigFlaw.message : ConfigFlaw → String
  | .thresholdTooLarge threshold =>
    s!"coalesce_threshold must not exceed {Word.largest32}, got {threshold.toNat}"
  | .noAttempts => "max_retries must be greater than 0"
  | .noTimeout => "timeout must be greater than 0"

/-- Why an archive cannot be opened or read. Each part that can fail has its own errors,
which are handed on with all that they tell. -/
inductive ReadError where
  | io (error : IoError)
  | header (error : HeaderError)
  | directory (error : DirectoryError)
  | tileId (error : TileIdError)
  | compression (error : Gzip.GzipError)
  | metadata (error : MetadataError)
  | cache (error : CacheConfigError)
  | configuration (flaw : ConfigFlaw)
deriving DecidableEq, Repr

namespace ReadError

/-- The text of an error, led by the part of the work that failed. -/
def message : ReadError → String
  | .io error => "I/O error: " ++ error.detail.getD error.kind.name
  | .header error => "Header error: " ++ error.message
  | .directory error => "Directory error: " ++ error.message
  | .tileId error => "Tile id error: " ++ error.message
  | .compression error => "Compression error: " ++ error.message
  | .metadata error => "Metadata error: " ++ error.message
  | .cache error => "Cache error: " ++ error.message
  | .configuration flaw => "Invalid configuration: " ++ flaw.message

end ReadError

end TileArchive
