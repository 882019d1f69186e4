import OmniTransaction.BitcoinSighash
import OmniTransaction.EvmSigning
import OmniTransaction.NonDelegate
import OmniTransaction.BitcoinDecodable
import OmniTransaction.BitcoinDecoding
import OmniTransaction.BitcoinSignature
import OmniTransaction.BitcoinSessions
import OmniTransaction.BitcoinJson
import OmniTransaction.WitnessSources
import OmniTransaction.EvmJson
import OmniTransaction.BitcoinNumbers
import OmniTransaction.NearSignatures
import OmniTransaction.BitcoinTxid
import OmniTransaction.ChunkedReader
import OmniTransaction.BitcoinBuilder
import OmniTransaction.EvmBuilder
import OmniTransaction.NearBuilder
import OmniTransaction.SignatureTexts
import OmniTransaction.BitcoinSigning
import OmniTransaction.NearKeyTexts
import OmniTransaction.EvmDocuments
import OmniTransaction.NearReaders
import OmniTransaction.DocumentOrder
import OmniTransaction.DocumentPanics
import OmniTransaction.NearTextAmounts
import OmniTransaction.BitcoinAccepted
import OmniTransaction.NearForms
import OmniTransaction.BitcoinForms
import OmniTransaction.BitcoinReader
import OmniTransaction.EvmReader
import OmniTransaction.ChainPayloads
