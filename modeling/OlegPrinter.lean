import OlegPrinter.Properties.ReadConfig
import OlegPrinter.Properties.Handshake
import OlegPrinter.Properties.Status
import OlegPrinter.Properties.StaleCommand
import OlegPrinter.Properties.Undamaged
import OlegPrinter.Properties.Decoding
import OlegPrinter.Properties.Freshness
import OlegPrinter.Properties.Agreement
import OlegPrinter.Properties.Reasons
import OlegPrinter.Properties.StartUp
import OlegPrinter.Properties.PrintProtocol
import OlegPrinter.Properties.Queued
import OlegPrinter.Properties.Monitoring
import OlegPrinter.Properties.Supported
import OlegPrinter.Properties.Configuration
import OlegPrinter.Properties.PrintStatus
import OlegPrinter.Properties.PrintSession
import OlegPrinter.Properties.ItemPrograms
import OlegPrinter.Properties.MinifiedText
