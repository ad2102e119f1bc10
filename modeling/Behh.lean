import Behh.Cryptography.Base36
import Behh.Library.Chunks
import Behh.Openssl.Evp
import Behh.Utility.Base64
import Behh.Cryptography.StreamCipher
import Behh.Openssl.Reference
import Behh.Cryptography.StringCipher
import Behh.Cryptography.Hash
import Behh.Std.FileStream
import Behh.Utility.FileCrypt
import Behh.Utility.FileCryptFailure
import Behh.Utility.FileRoundTrip
import Behh.Cryptography.KeyUse
import Behh.Utility.KeyMaterial
import Behh.Utility.JsonFiles
import Behh.Utility.Nonces
import Behh.Utility.JsonGuards
import Behh.Std.Text
import Behh.Utility.CsvReader
import Behh.Library.Calendar
import Behh.Std.Numerals
import Behh.Std.Time
import Behh.Std.TimeText
import Behh.DateAndTime.Utc
import Behh.DateAndTime.Renderings
import Behh.DateAndTime.CountPath
import Behh.DateAndTime.RoundTrip
import Behh.DateAndTime.LocalClock
import Behh.Interfaces.ScyllaDb
import Behh.Interfaces.ScyllaIsolation
import Behh.Interfaces.ScyllaHandles
import Behh.Utility.Find
import Behh.Communication.Smtps
import Behh.Communication.Templates
import Behh.Library.Shell
import Behh.Communication.SmtpsShell
import Behh.Communication.Sparkpost
import Behh.Utility.CsvRoundTrip
import Behh.Utility.Base64Standard
import Behh.Utility.Base64Openssl
import Behh.Cryptography.ContextUse
import Behh.Cryptography.CipherAgreement
import Behh.Utility.AlignedRoundTrip
import Behh.Utility.FileAuthenticity
import Behh.Library.Raster
import Behh.Generate.Barqr
import Behh.Generate.BarqrImages
import Behh.Interfaces.Couchbase
import Behh.Interfaces.CouchbaseTruth
import Behh.Interfaces.Postgresql
import Behh.Library.KeywordValue
import Behh.Cryptography.Base36Canonical
import Behh.Std.HexText
import Behh.Cryptography.HexStrings
import Behh.Utility.Generate
import Behh.Utility.Uuid
import Behh.Utility.UuidPayload
import Behh.Library.Cuts
import Behh.Utility.ReplaceAll
import Behh.Library.Loops
import Behh.Utility.BufferFiles
import Behh.Utility.InPlace
import Behh.Utility.CsvRejects
import Behh.Std.Floats
import Behh.Utility.NumeralValidators
import Behh.Utility.CellNumbers
import Behh.Utility.CsvObjects
import Behh.Utility.CsvReadersAgree
import Behh.Utility.CsvColumns
import Behh.DateAndTime.ZoneStamp
import Behh.DateAndTime.Overflow
import Behh.Std.TextOrder
import Behh.DateAndTime.BeforeEpoch
import Behh.DateAndTime.Accepted
import Behh.Generate.PixelBounds
import Behh.Cryptography.Base36Stream
import Behh.Cryptography.KeptOutput
import Behh.Cryptography.Narrowing
import Behh.Interfaces.ScyllaAuth
import Behh.Interfaces.CouchbaseRetry
import Behh.Interfaces.CouchbaseQueries
import Behh.Utility.WrittenFiles
import Behh.Generate.BarqrRenderings
import Behh.Generate.BarqrWriters
import Behh.Library.BinaryFloat
import Behh.Generate.Luminance
import Behh.Generate.Decode
import Behh.Generate.BarqrRoundTrip
import Behh.System.Ports
import Behh.Interfaces.PostgresqlHandles
import Behh.Interfaces.CouchbaseRace
import Behh.Utility.FileRuns
import Behh.Utility.Keywords
import Behh.Utility.LetterCase
import Behh.Utility.EncryptedRuns
import Behh.Cryptography.CallProtocol
import Behh.DateAndTime.ClockTexts
import Behh.Utility.UuidOrder
import Behh.Utility.SavedCells
import Behh.Utility.CsvReread
import Behh.Library.Descent
import Behh.Utility.CsvRounds
